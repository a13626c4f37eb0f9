import ProtonDrive.Lib.Machine
import ProtonDrive.Sdk.KeyReport

/-!
# Calls of the account client

What the calls of the account client return after any earlier calls, some of which may have failed
on the way to the server.

* `calls` — the machine that takes any sequence of calls; `consistent_of_reached` is its invariant.
* `default_address_is_chosen` — the default address is the first of the lowest in the response, or
  there is none; and the index of each address leads to its primary key.
* `contains_iff_reported` — which keys the unlock path hands out, as the report shows it.
-/

namespace ProtonDrive.Account

open Program (read modify ofExcept attempt Keeps Stays)
open FirstMin (IsFirstMin)
open Records (record)

variable {Key : Type}

/-! ## Runs -/

/-- A call that only matters for what it leaves in the cache. -/
inductive Request where
  | keySalts
  | keyPassphrases
  | unlock
  | addresses
  | address (id : String)
  | defaultAddress
  | addressPrivateKeys (id : String)
  | resolveMembershipAddress (id : String)
  | keyReport

def Request.call (ops : KeyOps Key) (server : Server) : Request → Call Key Unit
  | .keySalts => do let _ ← Account.keySalts server
  | .keyPassphrases => do let _ ← Account.keyPassphrases ops server
  | .unlock => Account.unlock ops server
  | .addresses => do let _ ← Account.addresses ops server
  | .address id => do let _ ← Account.address ops server id
  | .defaultAddress => do let _ ← Account.defaultAddress ops server
  | .addressPrivateKeys id => do let _ ← Account.addressPrivateKeys ops server id
  | .resolveMembershipAddress id => do let _ ← Account.resolveMembershipAddress ops server id
  | .keyReport => do let _ ← Account.keyReport ops server

/-- Any sequence of calls, each with what the server would answer during it. -/
def calls (ops : KeyOps Key) : Machine (Cache Key) (Server × Request) where
  step c action := ((action.2.call ops action.1).run c).map Prod.fst

section

variable {ops : KeyOps Key} {a : AccountData} {server : Server} {c c' : Cache Key} {α : Type}

/-- A call that gives something leaves the cache consistent. -/
theorem keeps_of_gives {x : Call Key α} {r : Cache Key → Except ProtonError α}
    {Q : Cache Key → Cache Key → Prop}
    (h : ∀ c, Consistent ops a c → Gives ops a server x (r c) (Q c) c) :
    Keeps (Stays (Consistent ops a)) x := by
  intro c c' r' hrun hc
  obtain ⟨c₁, r₁, hrun₁, hc₁, -⟩ := h c hc
  rw [hrun] at hrun₁
  cases hrun₁
  exact hc₁

/-- The key salts leave the cache consistent. -/
theorem keeps_keySalts (hof : server.Of a) :
    Keeps (Stays (Consistent ops a)) (keySalts server) :=
  keeps_of_gives (fun _ hc => gives_keySalts hof hc)

/-- The passphrases leave the cache consistent. -/
theorem keeps_keyPassphrases (hof : server.Of a) :
    Keeps (Stays (Consistent ops a)) (keyPassphrases ops server) :=
  keeps_of_gives (Q := fun _ c' => c'.keyPassphrases.isSome)
    (fun _ hc => gives_keyPassphrases hof hc)

/-- The user keys leave the cache consistent. -/
theorem keeps_userKeys (hof : server.Of a) : Keeps (Stays (Consistent ops a)) (userKeys ops server) :=
  keeps_of_gives (Q := fun _ c' => c'.userKeys.isSome) (fun _ hc => gives_userKeys hof hc)

/-- The addresses leave the cache consistent. -/
theorem keeps_addresses (hof : server.Of a) :
    Keeps (Stays (Consistent ops a)) (addresses ops server) :=
  keeps_of_gives (Q := fun _ c' => c'.addresses.isSome) (fun _ hc => gives_addresses hof hc)

/-- One address leaves the cache consistent. -/
theorem keeps_address (hof : server.Of a) (id : String) :
    Keeps (Stays (Consistent ops a)) (address ops server id) := by
  refine .bind (keeps_addresses hof) (fun l => ?_)
  split
  · exact .pure _
  · exact .bind (.read _) (fun e => .ofExcept _)

/-- The default address leaves the cache consistent. -/
theorem keeps_defaultAddress (hof : server.Of a) :
    Keeps (Stays (Consistent ops a)) (defaultAddress ops server) := by
  refine .bind (keeps_addresses hof) (fun l => .bind (.read _) (fun failed => ?_))
  split
  · exact .ofExcept _
  · split
    · exact .pure _
    · exact .ofExcept _

/-- The keys of an address leave the cache consistent. -/
theorem keeps_addressPrivateKeys (hof : server.Of a) (id : String) :
    Keeps (Stays (Consistent ops a)) (addressPrivateKeys ops server id) := by
  refine .bind (.read _) (fun keys => ?_)
  split
  · exact .pure _
  · refine .bind (keeps_addresses hof) (fun l => .bind (.read _) (fun keys => ?_))
    split
    · exact .pure _
    · exact .bind (.read _) (fun e => .ofExcept _)

/-- Every call leaves the cache consistent. -/
theorem keeps_call (hof : server.Of a) (request : Request) :
    Keeps (Stays (Consistent ops a)) (request.call ops server) := by
  cases request with
  | keySalts => exact .bind (keeps_keySalts hof) (fun _ => .pure _)
  | keyPassphrases => exact .bind (keeps_keyPassphrases hof) (fun _ => .pure _)
  | unlock => exact .bind (keeps_userKeys hof) (fun _ => .pure _)
  | addresses => exact .bind (keeps_addresses hof) (fun _ => .pure _)
  | address id => exact .bind (keeps_address hof id) (fun _ => .pure _)
  | defaultAddress => exact .bind (keeps_defaultAddress hof) (fun _ => .pure _)
  | addressPrivateKeys id => exact .bind (keeps_addressPrivateKeys hof id) (fun _ => .pure _)
  -- The call makes two reads before it looks for the key.
  | resolveMembershipAddress id =>
      refine .bind ?_ (fun _ => .pure _)
      refine .bind (keeps_address hof id)
        (fun address => .bind (keeps_addressPrivateKeys hof id) (fun keys => ?_))
      split
      · exact .pure _
      · exact .ofExcept _
  | keyReport =>
      refine .bind ?_ (fun _ => .pure _)
      exact .bind (keeps_keyPassphrases hof)
        (fun p => .bind (.ofExcept _) (fun users => .bind (.ofExcept _) (fun response => .pure _)))

/-- Whatever was called before, and whatever of it failed, the cache holds only what the account
gives. -/
theorem consistent_of_reached {as : List (Server × Request)} (hof : ∀ action ∈ as, action.1.Of a)
    (h : (calls ops).exec a.start.cache as = some c) : Consistent ops a c := by
  refine (calls ops).exec_invariant_along (Consistent ops a) ?_
    ((calls ops).along_of_mem a.start.cache hof) (consistent_start ops a) h
  intro s action t haction hs hstep
  obtain ⟨⟨t', r⟩, hrun, rfl⟩ := Option.map_eq_some_iff.mp hstep
  exact keeps_call haction action.2 s t' r hrun hs

/-! ## What opens -/

/-- An address opens if an active primary key of it does, and the index is that of the first one. -/
theorem openAddress_eq_ok {passphrases : KeyPassphrases} {userKeys : List Key} {dto : AddressDto}
    {ad : Address} {keys : List Key} :
    openAddress ops passphrases userKeys dto = .ok (ad, keys) ↔
      ∃ i e, (openedEntries ops passphrases userKeys dto.keys).findIdx? (fun e => e.1.isPrimary) =
          some i ∧
        (openedEntries ops passphrases userKeys dto.keys)[i]? = some e ∧
        ad = ⟨dto.id, dto.email, dto.order, dto.status, i, e.1.id⟩ ∧
        keys = (openedEntries ops passphrases userKeys dto.keys).map Prod.snd := by
  -- The loop over the keys keeps what opened and where the primary key came to stand.
  have hfold : dto.keys.foldl (openKey ops passphrases userKeys) ⟨[], none, none⟩ =
      openingOf (openedEntries ops passphrases userKeys dto.keys) :=
    foldl_openKey userKeys [] dto.keys
  unfold openAddress
  dsimp only
  rw [hfold]
  generalize openedEntries ops passphrases userKeys dto.keys = es
  unfold openingOf
  rw [List.find?_eq_bind_findIdx?_getElem?]
  cases hi : es.findIdx? (fun e => e.1.isPrimary) with
  | none => simp
  | some i =>
      obtain ⟨hlt, -, -⟩ := List.findIdx?_eq_some_iff_getElem.mp hi
      simp only [Option.bind_some, List.getElem?_eq_getElem hlt, Option.map_some, Except.ok.injEq,
        Prod.mk.injEq, Option.some.injEq]
      constructor
      · rintro ⟨rfl, rfl⟩
        exact ⟨i, es[i], rfl, List.getElem?_eq_getElem hlt, rfl, rfl⟩
      · rintro ⟨i', e, rfl, he, rfl, rfl⟩
        rw [List.getElem?_eq_getElem hlt] at he
        cases he
        exact ⟨rfl, rfl⟩

/-- The active keys of an address that open, each with its data; none if no user key does. -/
def AccountData.entries (ops : KeyOps Key) (a : AccountData) (dto : AddressDto) :
    Option (List (AddressKeyDto × Key)) :=
  (a.unlocked ops).toOption.map (fun u => openedEntries ops u.1 (u.2.1 ++ u.2.2) dto.keys)

/-- An address opens when it has a primary key among the keys that are kept. -/
theorem AccountData.openAddress_eq_ok {dto : AddressDto} {ad : Address} {keys : List Key} :
    a.openAddress ops dto = .ok (ad, keys) ↔
      ∃ es i e, a.entries ops dto = some es ∧ es.findIdx? (fun e => e.1.isPrimary) = some i ∧
        es[i]? = some e ∧ ad = ⟨dto.id, dto.email, dto.order, dto.status, i, e.1.id⟩ ∧
        keys = es.map Prod.snd := by
  unfold AccountData.openAddress AccountData.entries
  cases a.unlocked ops with
  -- Without user keys there are no entries.
  | error e =>
      constructor
      · intro h
        cases h
      · rintro ⟨es, i, e, ⟨⟩, -⟩
  | ok u =>
      show Account.openAddress ops u.1 (u.2.1 ++ u.2.2) dto = _ ↔ _
      rw [Account.openAddress_eq_ok]
      constructor
      · rintro ⟨i, e, h⟩
        exact ⟨_, i, e, rfl, h⟩
      · rintro ⟨es, i, e, ⟨⟩, h⟩
        exact ⟨i, e, h⟩

/-- The keys of an address are there when it opens. -/
theorem AccountData.openedKeys_eq_some {dto : AddressDto} {keys : List Key} :
    a.openedKeys ops dto = some keys ↔ ∃ ad, a.openAddress ops dto = .ok (ad, keys) := by
  unfold AccountData.openedKeys
  simp only [Option.map_eq_some_iff, Except.toOption_eq_some]
  constructor
  · rintro ⟨⟨ad, keys⟩, hopen, rfl⟩
    exact ⟨ad, hopen⟩
  · rintro ⟨ad, hopen⟩
    exact ⟨(ad, keys), hopen, rfl⟩

/-- An address is there when it opens. -/
theorem AccountData.opened_eq_some {dto : AddressDto} {ad : Address} :
    a.opened ops dto = some ad ↔ ∃ keys, a.openAddress ops dto = .ok (ad, keys) := by
  unfold AccountData.opened
  simp only [Option.map_eq_some_iff, Except.toOption_eq_some]
  constructor
  · rintro ⟨⟨ad, keys⟩, hopen, rfl⟩
    exact ⟨keys, hopen⟩
  · rintro ⟨keys, hopen⟩
    exact ⟨(ad, keys), hopen, rfl⟩

/-- An opened address keeps its id and its order. -/
theorem AccountData.opened_order {dto : AddressDto} {ad : Address}
    (h : a.opened ops dto = some ad) : ad.order = dto.order ∧ ad.id = dto.id := by
  obtain ⟨keys, hopen⟩ := AccountData.opened_eq_some.mp h
  obtain ⟨es, i, e, -, -, -, rfl, -⟩ := AccountData.openAddress_eq_ok.mp hopen
  exact ⟨rfl, rfl⟩

/-- An address has either an entry among the opened ones or a reason. -/
theorem AccountData.reason_eq_none (hunlocked : ∃ u, a.unlocked ops = .ok u) {dto : AddressDto} :
    a.reason ops dto = none ↔ (a.opened ops dto).isSome := by
  unfold AccountData.reason AccountData.opened
  rcases openAddress_cases hunlocked dto with ⟨ad, keys, hopen, -⟩ | ⟨reason, hopen⟩ <;>
    simp [hopen, Except.toOption]

/-! ## The default address -/

/-- The first of the lowest counts as failed unless every address under its id opens. -/
theorem AccountData.defaultFailed_eq_none (hunlocked : ∃ u, a.unlocked ops = .ok u)
    {dto : AddressDto} (h : IsFirstMin AddressDto.order a.response.addresses dto) :
    a.defaultFailed ops = none ↔
      ∀ d ∈ a.response.addresses, d.id = dto.id → (a.opened ops d).isSome := by
  unfold AccountData.defaultFailed AccountData.failed
  rw [FirstMin.minOn?_eq_some_iff.mpr h, Option.bind_some, Records.foldl_record_eq_none_iff]
  simp only [true_and, a.reason_eq_none hunlocked]

/-- What is loaded are the addresses that open, in their order. -/
theorem AccountData.loaded_eq_ok {l : List Address} (h : a.loaded ops = .ok l) :
    (∃ u, a.unlocked ops = .ok u) ∧
      l = (a.response.addresses.filterMap (a.opened ops)).mergeSort
        (FirstMin.byKey Address.order) := by
  unfold AccountData.loaded at h
  obtain ⟨u, hu, hrest⟩ := Except.bind_eq_ok.mp h
  refine ⟨⟨u, hu⟩, ?_⟩
  split at hrest
  · cases hrest
  · cases hrest
    rfl

/-- The addresses cannot be loaded only if none of them opens. -/
theorem AccountData.loaded_eq_error {e : ProtonError} (h : a.loaded ops = .error e)
    {dto : AddressDto} (hdto : dto ∈ a.response.addresses) : a.opened ops dto = none := by
  unfold AccountData.loaded at h
  cases hunlocked : a.unlocked ops with
  | error e' =>
      unfold AccountData.opened AccountData.openAddress
      rw [hunlocked]
      rfl
  | ok u =>
      rw [hunlocked] at h
      dsimp only [bind, Except.bind] at h
      split at h
      · next hnone _ => exact List.filterMap_eq_nil_iff.mp hnone dto hdto
      · cases h

/-- Whatever the cache holds, the addresses come out as the account gives them. -/
theorem run_addresses (hc : Consistent ops a c) :
    ∃ c', (addresses ops a.server).run c = some (c', a.loaded ops) ∧ Consistent ops a c' ∧
      ∀ l, a.loaded ops = .ok l → LoadedAs ops a c' l := by
  obtain ⟨c', r, hrun, hc', hr, hQ⟩ := gives_addresses a.server_of hc
  rcases hr with rfl | ⟨hserver, -⟩
  · refine ⟨c', hrun, hc', ?_⟩
    intro l hl
    obtain ⟨l', hl'⟩ := Option.isSome_iff_exists.mp (hQ l hl)
    have h := hc'.addresses l' hl'
    have heq := hl.symm.trans h.loaded
    cases heq
    exact h
  · exact absurd rfl hserver

/-- The default address is the first of the lowest of the whole response, if it opens and no other
address under its id fails. -/
theorem run_defaultAddress (hc : Consistent ops a c) :
    ∃ c' r, (defaultAddress ops a.server).run c = some (c', r) ∧ ∀ ad, r = .ok ad ↔
      ∃ dto, IsFirstMin AddressDto.order a.response.addresses dto ∧ a.opened ops dto = some ad ∧
        ∀ d ∈ a.response.addresses, d.id = dto.id → (a.opened ops d).isSome := by
  obtain ⟨c', hrun, hc', hloadedAs⟩ := run_addresses hc
  unfold defaultAddress
  cases hloaded : a.loaded ops with
  | error e =>
      rw [hloaded] at hrun
      refine ⟨c', .error e, Program.bind_error hrun, ?_⟩
      intro ad
      constructor
      · intro h
        cases h
      · -- No address opened at all, so the first one did not either.
        rintro ⟨dto, hfirst, hopened, -⟩
        rw [a.loaded_eq_error hloaded hfirst.mem] at hopened
        cases hopened
  | ok l =>
      have h := hloadedAs l hloaded
      rw [hloaded] at hrun
      obtain ⟨hunlocked, hl⟩ := a.loaded_eq_ok hloaded
      rw [Program.bind_ok hrun, Program.read_bind, h.defaultFailed]
      cases hmin : a.response.addresses.minOn? AddressDto.order with
      | none =>
          -- The response is empty, and there is no address to be the default.
          have hnil : a.response.addresses = [] := by
            by_contra hne
            have hsome := (List.isSome_minOn?_iff (f := AddressDto.order)).mpr hne
            rw [hmin] at hsome
            cases hsome
          have hdefault : a.defaultFailed ops = none := by
            unfold AccountData.defaultFailed
            rw [hmin]
            rfl
          rw [hnil] at hl
          rw [List.filterMap_nil, List.mergeSort_nil] at hl
          rw [hdefault, hl, hnil]
          refine ⟨c', _, rfl, ?_⟩
          intro ad
          constructor
          · intro h
            cases h
          · rintro ⟨dto, hfirst, -⟩
            exact absurd hfirst FirstMin.not_isFirstMin_nil
      | some dto =>
          have hfirst := FirstMin.minOn?_eq_some_iff.mp hmin
          have hnone := a.defaultFailed_eq_none hunlocked hfirst
          cases hfailed : a.defaultFailed ops with
          -- The first address failed, and the source refuses rather than take another.
          | some reason =>
              refine ⟨c', _, rfl, ?_⟩
              intro ad
              constructor
              · intro h
                cases h
              · rintro ⟨dto', hfirst', -, hall⟩
                obtain rfl := hfirst'.unique hfirst
                rw [hfailed] at hnone
                cases hnone.mpr hall
          | none =>
              have hall := hnone.mp hfailed
              obtain ⟨ad, had⟩ := Option.isSome_iff_exists.mp (hall dto hfirst.mem rfl)
              -- The first address opened, and sorting puts it in front.
              have hhead : l.head? = some ad := by
                rw [hl]
                exact FirstMin.head?_mergeSort_eq_some_iff.mpr
                  (hfirst.filterMap (fun dto ad h => (a.opened_order h).1) had)
              dsimp only
              rw [hhead]
              refine ⟨c', .ok ad, rfl, ?_⟩
              intro ad'
              constructor
              · rintro ⟨⟩
                exact ⟨dto, hfirst, had, hall⟩
              · rintro ⟨dto', hfirst', hopened, -⟩
                obtain rfl := hfirst'.unique hfirst
                rw [had] at hopened
                cases hopened
                rfl

/-! ## The keys of one address -/

/-- An address that does not open has no keys. -/
theorem AccountData.openedKeys_eq_none {dto : AddressDto} (h : a.opened ops dto = none) :
    a.openedKeys ops dto = none := by
  unfold AccountData.opened at h
  unfold AccountData.openedKeys
  rw [Option.map_eq_none_iff] at h ⊢
  exact h

/-- Under an id are the keys of the last address with it that opens, and an error if there is
none. -/
theorem run_addressPrivateKeys (hc : Consistent ops a c) (id : String) :
    ∃ c' r, (addressPrivateKeys ops a.server id).run c = some (c', r) ∧
      Consistent ops a c' ∧ ∀ keys, r = .ok keys ↔ a.keysOf ops id = some keys := by
  unfold addressPrivateKeys
  rw [Program.read_bind]
  cases hcached : c.addressKeys id with
  | some keys =>
      refine ⟨c, .ok keys, rfl, hc, ?_⟩
      intro keys'
      rw [hc.addressKeys id keys hcached, Except.ok.injEq, Option.some.injEq]
  | none =>
      obtain ⟨c', hrun, hc', hloadedAs⟩ := run_addresses hc
      dsimp only
      cases hloaded : a.loaded ops with
      | error e =>
          rw [hloaded] at hrun
          -- No address opened, so that no keys are recorded under any id.
          have hnone : a.keysOf ops id = none := by
            apply Records.foldl_record_eq_none_iff.mpr
            refine ⟨rfl, ?_⟩
            intro dto hdto _
            exact a.openedKeys_eq_none (a.loaded_eq_error hloaded hdto)
          refine ⟨c', .error e, Program.bind_error hrun, hc', ?_⟩
          intro keys
          rw [hnone]
          constructor <;> intro h <;> cases h
      | ok l =>
          have h := hloadedAs l hloaded
          rw [hloaded] at hrun
          rw [Program.bind_ok hrun, Program.read_bind, h.keys]
          -- The second look finds the keys of the last address of this id.
          cases hafter : a.keysOf ops id with
          | some keys =>
              refine ⟨c', .ok keys, rfl, hc', ?_⟩
              intro keys'
              rw [Except.ok.injEq, Option.some.injEq]
          | none =>
              refine ⟨c', _, rfl, hc', ?_⟩
              intro keys
              constructor <;> intro h <;> cases h

/-- The keys of an address stay under its id if no later one with this id opens. -/
theorem AccountData.keysOf_of_last {before after : List AddressDto} {dto : AddressDto}
    {keys : List Key} (hsplit : a.response.addresses = before ++ dto :: after)
    (hkeys : a.openedKeys ops dto = some keys)
    (hafter : ∀ d ∈ after, d.id = dto.id → a.opened ops d = none) :
    a.keysOf ops dto.id = some keys := by
  unfold AccountData.keysOf
  rw [hsplit]
  exact Records.foldl_record_of_last hkeys
    (fun d hd hid => a.openedKeys_eq_none (hafter d hd hid))

/-- An address that is alone with its id has its own keys under it. -/
theorem AccountData.keysOf_of_alone {dto : AddressDto} (hdto : dto ∈ a.response.addresses)
    (halone : ∀ d ∈ a.response.addresses, d.id = dto.id → d = dto) :
    a.keysOf ops dto.id = a.openedKeys ops dto := by
  cases hkept : a.keysOf ops dto.id with
  | none => exact ((Records.foldl_record_eq_none_iff.mp hkept).2 dto hdto rfl).symm
  | some keys =>
      obtain ⟨d, hd, hid, hkeys⟩ := Records.exists_of_foldl_record hkept
      rw [halone d hd hid] at hkeys
      exact hkeys.symm

/-- An address that opens is found by its id, if no other one with it opens. -/
theorem run_address (hc : Consistent ops a c) {dto : AddressDto} {ad : Address}
    (hdto : dto ∈ a.response.addresses) (hopened : a.opened ops dto = some ad)
    (halone : ∀ d ∈ a.response.addresses, d.id = dto.id → ∀ ad', a.opened ops d = some ad' →
      ad' = ad) :
    ∃ c', (address ops a.server dto.id).run c = some (c', .ok ad) ∧ Consistent ops a c' := by
  obtain ⟨c', hrun, hc', -⟩ := run_addresses hc
  cases hloaded : a.loaded ops with
  | error e =>
      rw [a.loaded_eq_error hloaded hdto] at hopened
      cases hopened
  | ok l =>
      rw [hloaded] at hrun
      obtain ⟨-, hl⟩ := a.loaded_eq_ok hloaded
      -- The cached list holds exactly the addresses that opened.
      have hmem : ∀ ad', ad' ∈ l ↔ ∃ dto ∈ a.response.addresses, a.opened ops dto = some ad' := by
        intro ad'
        rw [hl, List.mem_mergeSort, List.mem_filterMap]
      -- All of this id that opened are the same, so the first found is as good as any.
      have hfind : l.find? (fun x => x.id == dto.id) = some ad := by
        have hsome : (l.find? (fun x => x.id == dto.id)).isSome := by
          rw [List.find?_isSome]
          refine ⟨ad, (hmem ad).mpr ⟨dto, hdto, hopened⟩, ?_⟩
          simp [(a.opened_order hopened).2]
        obtain ⟨ad', had'⟩ := Option.isSome_iff_exists.mp hsome
        obtain ⟨dto', hdto', hopened'⟩ := (hmem ad').mp (List.mem_of_find?_eq_some had')
        have hid : ad'.id = dto.id := by simpa using List.find?_some had'
        rw [(a.opened_order hopened').2] at hid
        rw [halone dto' hdto' hid ad' hopened'] at had'
        exact had'
      refine ⟨c', ?_, hc'⟩
      unfold address
      rw [Program.bind_ok hrun, hfind]
      rfl

/-- The default address is the first of the lowest in the whole response, if it opens and no other
address under its id fails; there is no other in its place. The key at the index of an address is the
opened key with the address's primary key id, whatever was skipped before it, unless a later address
with the same id opens: the keys are kept by id. -/
theorem default_address_is_chosen {as : List (Server × Request)}
    (hof : ∀ action ∈ as, action.1.Of a) (hreached : (calls ops).exec a.start.cache as = some c) :
    (∃ c' r, (defaultAddress ops a.server).run c = some (c', r) ∧ ∀ ad, r = .ok ad ↔
      ∃ dto, IsFirstMin AddressDto.order a.response.addresses dto ∧ a.opened ops dto = some ad ∧
        ∀ d ∈ a.response.addresses, d.id = dto.id → (a.opened ops d).isSome) ∧
    ∀ before dto after, a.response.addresses = before ++ dto :: after →
      ∀ ad, a.opened ops dto = some ad → (∀ d ∈ after, d.id = dto.id → a.opened ops d = none) →
        ∃ es e, a.entries ops dto = some es ∧ e ∈ es ∧
          e.1 ∈ dto.keys ∧ e.1.isActive ∧ e.1.isPrimary ∧ e.1.id = ad.primaryKeyId ∧
          (∃ c', (addressPrivateKeys ops a.server ad.id).run c =
            some (c', .ok (es.map Prod.snd))) ∧
          (es.map Prod.snd)[ad.primaryKeyIndex]? = some e.2 ∧
          ((∀ d ∈ before, d.id = dto.id → a.opened ops d = none) →
            ∃ c', (resolveMembershipAddress ops a.server ad.id).run c =
              some (c', .ok (ad.id, ad.email, e.2))) := by
  have hc := consistent_of_reached hof hreached
  refine ⟨run_defaultAddress hc, ?_⟩
  intro before dto after hsplit ad hopened hafter
  have hdto : dto ∈ a.response.addresses := by
    rw [hsplit]
    exact List.mem_append_right _ List.mem_cons_self
  obtain ⟨keys, hopen⟩ := a.opened_eq_some.mp hopened
  -- Later addresses of the id opened none, so that the keys recorded are those of this one.
  have hkeys := a.keysOf_of_last hsplit (a.openedKeys_eq_some.mpr ⟨ad, hopen⟩) hafter
  obtain ⟨es, i, e, hes, hi, he, rfl, rfl⟩ := a.openAddress_eq_ok.mp hopen
  obtain ⟨hlt, hprimary, -⟩ := List.findIdx?_eq_some_iff_getElem.mp hi
  rw [List.getElem?_eq_getElem hlt] at he
  cases he
  have hmem : es[i] ∈ es := List.getElem_mem hlt
  have hdata : es[i].1 ∈ dto.keys ∧ es[i].1.isActive := by
    unfold AccountData.entries at hes
    obtain ⟨u, -, rfl⟩ := Option.map_eq_some_iff.mp hes
    obtain ⟨keyDto, hkeyDto, hentry⟩ := List.mem_filterMap.mp hmem
    obtain ⟨key, -, hkey⟩ := Option.map_eq_some_iff.mp hentry
    rw [← hkey]
    exact List.mem_filter.mp hkeyDto
  -- The index counts the opened keys, as the list of private keys does.
  have hindex : (es.map Prod.snd)[i]? = some es[i].2 := by
    rw [List.getElem?_map, List.getElem?_eq_getElem hlt]
    rfl
  refine ⟨es, es[i], hes, hmem, hdata.1, hdata.2, hprimary, rfl, ?_, hindex, ?_⟩
  · obtain ⟨c', r, hrun, -, hr⟩ := run_addressPrivateKeys hc dto.id
    rw [(hr _).mpr hkeys] at hrun
    exact ⟨c', hrun⟩
  · intro hbefore
    -- For the signing key the earlier ones of the id must not have opened either.
    have halone : ∀ d ∈ a.response.addresses, d.id = dto.id → ∀ ad', a.opened ops d = some ad' →
        ad' = ⟨dto.id, dto.email, dto.order, dto.status, i, es[i].1.id⟩ := by
      intro d hd hid ad' hopened'
      rw [hsplit] at hd
      rcases List.mem_append.mp hd with hd | hd
      · rw [hbefore d hd hid] at hopened'
        cases hopened'
      · rcases List.mem_cons.mp hd with rfl | hd
        · exact Option.some.inj (hopened'.symm.trans hopened)
        · rw [hafter d hd hid] at hopened'
          cases hopened'
    obtain ⟨c', hrun, hc'⟩ := run_address hc hdto hopened halone
    obtain ⟨c'', r, hrun', -, hr⟩ := run_addressPrivateKeys hc' dto.id
    rw [(hr _).mpr hkeys] at hrun'
    refine ⟨c'', ?_⟩
    unfold resolveMembershipAddress
    rw [Program.bind_ok hrun, Program.bind_ok hrun']
    dsimp only
    rw [hindex]
    rfl

/-! ## The report -/

/-- The report is about what the server has, user keys first. -/
theorem run_keyReport (hc : Consistent ops a c) {report : KeyReport}
    (h : (keyReport ops a.server).run c = some (c', .ok report)) :
    ∃ passphrases, a.passphrases ops = .ok passphrases ∧
      report.userKeys = a.users.map (reportUserKey ops passphrases) ∧
      report.addresses = a.response.addresses.map
        (reportAddress ops passphrases (reportTokenKeys ops passphrases a.users)) := by
  obtain ⟨c₁, r, hrun, -, hr, -⟩ := gives_keyPassphrases a.server_of hc
  -- The report needs the passphrases, which come from the cache or from the server.
  rcases hr with rfl | ⟨hserver, -⟩
  · unfold keyReport at h
    cases hpass : a.passphrases ops with
    | error e =>
        rw [hpass] at hrun
        rw [Program.bind_error hrun] at h
        cases h
    | ok passphrases =>
        rw [hpass] at hrun
        rw [Program.bind_ok hrun] at h
        cases h
        exact ⟨passphrases, rfl, rfl, rfl⟩
  · exact absurd rfl hserver

/-- The user keys that open with the passphrases. -/
theorem AccountData.unlocked_eq_ok {passphrases : KeyPassphrases}
    (hpass : a.passphrases ops = .ok passphrases) {u : KeyPassphrases × List Key × List Key}
    (h : a.unlocked ops = .ok u) :
    u = (passphrases, unlockUserKeys ops passphrases a.users) := by
  unfold AccountData.unlocked at h
  rw [hpass] at h
  dsimp only [bind, Except.bind] at h
  split at h
  · cases h
  · cases h
    rfl

/-- The account is unlocked exactly if the report shows an active user key that unlocks. -/
theorem unlocked_iff_reported {passphrases : KeyPassphrases}
    (hpass : a.passphrases ops = .ok passphrases) :
    (∃ r ∈ a.users.map (reportUserKey ops passphrases), r.active ∧ r.unlocks) ↔
      ∃ keys inactive, unlockUserKeys ops passphrases a.users = (keys, inactive) ∧
        keys ++ inactive = reportTokenKeys ops passphrases a.users ∧
        a.unlocked ops = .ok (passphrases, keys, inactive) := by
  -- Both unlock a key in the same way, the report whether active or not.
  have hisOk : ∀ dto, (reportUserKey ops passphrases dto).unlocks =
      (unlockReported ops passphrases dto).toOption.isSome := by
    intro dto
    unfold reportUserKey
    dsimp only
    cases unlockReported ops passphrases dto <;> rfl
  have hunlocked : a.unlocked ops =
      if (unlockUserKeys ops passphrases a.users).1.isEmpty then .error (locked a.users)
      else .ok (passphrases, unlockUserKeys ops passphrases a.users) := by
    unfold AccountData.unlocked
    rw [hpass]
    rfl
  -- The account is unlocked if some active key is.
  rw [hunlocked, unlockUserKeys_eq]
  constructor
  · rintro ⟨r, hr, hactive, hunlocks⟩
    obtain ⟨dto, hdto, rfl⟩ := List.mem_map.mp hr
    rw [hisOk] at hunlocks
    obtain ⟨key, hkey⟩ := Option.isSome_iff_exists.mp hunlocks
    have hmem : key ∈ (a.users.filter UserKeyDto.isActive).filterMap
        (fun dto => (unlockReported ops passphrases dto).toOption) :=
      List.mem_filterMap.mpr ⟨dto, List.mem_filter.mpr ⟨hdto, hactive⟩, hkey⟩
    refine ⟨_, _, rfl, rfl, ?_⟩
    rw [if_neg]
    simpa using List.ne_nil_of_mem hmem
  · rintro ⟨keys, inactive, heq, -, hok⟩
    split at hok
    · cases hok
    · next hne =>
      obtain ⟨key, hkey⟩ := List.exists_mem_of_ne_nil _
        (fun hnil => hne (List.isEmpty_iff.mpr hnil))
      obtain ⟨dto, hdto, hopen⟩ := List.mem_filterMap.mp hkey
      obtain ⟨hmem, hactive⟩ := List.mem_filter.mp hdto
      refine ⟨reportUserKey ops passphrases dto, List.mem_map_of_mem hmem, hactive, ?_⟩
      rw [hisOk, hopen]
      rfl

/-- Of the active keys, those that the report shows to unlock are those the loop opens. -/
theorem mem_openedEntries_iff {passphrases : KeyPassphrases} {userKeys : List Key}
    {dtos : List AddressKeyDto} {dto : AddressKeyDto} :
    dto ∈ (openedEntries ops passphrases userKeys dtos).map Prod.fst ↔
      dto ∈ dtos ∧ dto.isActive ∧ (reportAddressKey ops passphrases userKeys dto).unlocks := by
  rw [reportAddressKey_unlocks]
  unfold openedEntries
  simp only [List.mem_map, List.mem_filterMap, List.mem_filter, Option.map_eq_some_iff,
    Option.isSome_iff_exists]
  constructor
  · rintro ⟨e, ⟨dto', ⟨hmem, hactive⟩, key, hkey, rfl⟩, rfl⟩
    exact ⟨hmem, hactive, key, hkey⟩
  · rintro ⟨hmem, hactive, key, hkey⟩
    exact ⟨(dto, key), ⟨dto, ⟨hmem, hactive⟩, key, hkey, rfl⟩, rfl⟩

/-- The unlock path hands out an active key exactly if the report shows that it unlocks, that some
active user key does, and that some active primary key of its address does. The keys are asked for by
the id of the address, so no other address may have it. -/
theorem contains_iff_reported {as : List (Server × Request)}
    (hof : ∀ action ∈ as, action.1.Of a) (hreached : (calls ops).exec a.start.cache as = some c)
    {report : KeyReport} (hreport : (keyReport ops a.server).run c = some (c', .ok report))
    {i j : Nat} {dto : AddressDto} {keyDto : AddressKeyDto}
    (hdto : a.response.addresses[i]? = some dto)
    (halone : ∀ d ∈ a.response.addresses, d.id = dto.id → d = dto)
    (hkeyDto : dto.keys[j]? = some keyDto) (hactive : keyDto.isActive) :
    ∃ ar kr, report.addresses[i]? = some ar ∧ ar.id = dto.id ∧ ar.keys[j]? = some kr ∧
      kr.id = keyDto.id ∧
      ((kr.unlocks ∧ (∃ u ∈ report.userKeys, u.active ∧ u.unlocks) ∧
          ∃ k ∈ ar.keys, k.active ∧ k.primary ∧ k.unlocks) ↔
        ∃ c₂ es, (addressPrivateKeys ops a.server dto.id).run c =
            some (c₂, .ok (es.map Prod.snd)) ∧
          a.entries ops dto = some es ∧ keyDto ∈ es.map Prod.fst) := by
  have hc := consistent_of_reached hof hreached
  obtain ⟨passphrases, hpass, husers, haddresses⟩ := run_keyReport hc hreport
  refine ⟨reportAddress ops passphrases (reportTokenKeys ops passphrases a.users) dto,
    reportAddressKey ops passphrases (reportTokenKeys ops passphrases a.users) keyDto, ?_, rfl, ?_,
    rfl, ?_⟩
  · rw [haddresses, List.getElem?_map, hdto]
    rfl
  · show (dto.keys.map _)[j]? = _
    rw [List.getElem?_map, hkeyDto]
    rfl
  · have hmemDto := List.mem_of_getElem? hdto
    have hmemKey := List.mem_of_getElem? hkeyDto
    obtain ⟨c₂, r, hrun, -, hr⟩ := run_addressPrivateKeys hc dto.id
    rw [a.keysOf_of_alone hmemDto halone] at hr
    rw [husers, unlocked_iff_reported hpass]
    constructor
    · rintro ⟨hunlocks, ⟨keys, inactive, -, htoken, hunlocked⟩, k, hk, hkactive, hkprimary, hkunlocks⟩
      rw [← htoken] at hunlocks hk
      obtain ⟨kd, hkd, rfl⟩ := List.mem_map.mp hk
      have hes : a.entries ops dto =
          some (openedEntries ops passphrases (keys ++ inactive) dto.keys) := by
        unfold AccountData.entries
        rw [hunlocked]
        rfl
      -- The primary key among the entries makes the address open.
      obtain ⟨e, he, rfl⟩ := List.mem_map.mp
        (mem_openedEntries_iff.mpr ⟨hkd, hkactive, hkunlocks⟩)
      have hany : (openedEntries ops passphrases (keys ++ inactive) dto.keys).any
          (fun e => e.1.isPrimary) = true := List.any_eq_true.mpr ⟨e, he, hkprimary⟩
      obtain ⟨n, hn⟩ := Option.isSome_iff_exists.mp (List.findIdx?_isSome.trans hany)
      obtain ⟨hlt, -, -⟩ := List.findIdx?_eq_some_iff_getElem.mp hn
      have hopen := a.openAddress_eq_ok.mpr
        ⟨_, n, _, hes, hn, List.getElem?_eq_getElem hlt, rfl, rfl⟩
      rw [(hr _).mpr (a.openedKeys_eq_some.mpr ⟨_, hopen⟩)] at hrun
      exact ⟨c₂, _, hrun, hes, mem_openedEntries_iff.mpr ⟨hmemKey, hactive, hunlocks⟩⟩
    · rintro ⟨c₃, es, hrun', hes, hmem⟩
      rw [hrun] at hrun'
      cases hrun'
      obtain ⟨ad, hopen⟩ := a.openedKeys_eq_some.mp ((hr _).mp rfl)
      obtain ⟨es', n, e, hes', hn, he, -, -⟩ := a.openAddress_eq_ok.mp hopen
      rw [hes] at hes'
      cases hes'
      have hmemE : e ∈ es := List.mem_of_getElem? he
      have hprimary : e.1.isPrimary = true := by
        obtain ⟨hlt, hp, -⟩ := List.findIdx?_eq_some_iff_getElem.mp hn
        rw [List.getElem?_eq_getElem hlt] at he
        cases he
        exact hp
      unfold AccountData.entries at hes
      obtain ⟨u, hu, rfl⟩ := Option.map_eq_some_iff.mp hes
      have hunlocked : a.unlocked ops = .ok u := by
        cases hx : a.unlocked ops with
        | error e => rw [hx] at hu; cases hu
        | ok v => rw [hx] at hu; cases hu; rfl
      obtain rfl := a.unlocked_eq_ok hpass hunlocked
      have htoken : (unlockUserKeys ops passphrases a.users).1 ++
          (unlockUserKeys ops passphrases a.users).2 =
            reportTokenKeys ops passphrases a.users := by
        rw [unlockUserKeys_eq]
        rfl
      rw [htoken] at hmem hmemE
      obtain ⟨hkd, hkactive, hkunlocks⟩ := mem_openedEntries_iff.mp (List.mem_map_of_mem hmemE)
      exact ⟨(mem_openedEntries_iff.mp hmem).2.2, ⟨_, _, rfl, htoken, hunlocked⟩, _,
        List.mem_map_of_mem hkd, hkactive, hprimary, hkunlocks⟩

end

/-! ## Some accounts -/

/-- Keys that open with the passphrase `[1]`, which the user key finds in the token "token". -/
def sampleOps : KeyOps String where
  fromArmored armored passphrase :=
    if passphrase == [1] then .ok armored else .error "wrong passphrase"
  decryptArmored armored key :=
    if armored == "token" && key == "user" then .ok [1] else .error "missing key"
  keyIds _ := []
  recipients _ := []
  decodeBase64 _ := .ok [0]
  deriveKeyPassphrase _ := .ok [1]

/-- One user key that opens, and these addresses. There is no passphrase for the key "locked". -/
def sampleAccount (addresses : List AddressDto) : AccountData where
  start := .withKeyPassphrases (fun id => if id == "locked" then none else some [1])
  keySalts := []
  users := [⟨"user", "user", 1, 1⟩]
  response := ⟨addresses⟩

def openKeyDto (id : String) (primary : Int) : AddressKeyDto := ⟨id, id, none, none, primary, 1⟩

def lockedKeyDto : AddressKeyDto := ⟨"locked", "locked", none, none, 1, 1⟩

/-- In front of its primary key are an inactive one, one without a passphrase, one whose token does
not open, and one that is not primary. -/
def chosenDto : AddressDto where
  id := "chosen"
  email := "me@example.test"
  status := 1
  order := 2
  keys := [⟨"inactive", "inactive", none, none, 1, 0⟩, lockedKeyDto,
    ⟨"stray", "stray", some "lost token", some "signature", 1, 1⟩, openKeyDto "other" 0,
    ⟨"primary", "primary", some "token", some "signature", 1, 1⟩]

/-- The chosen address is tied with the next one, and one that comes later does not open. -/
def fourAddresses : AccountData :=
  sampleAccount [⟨"late", "late@example.test", 1, 3, [openKeyDto "late" 1]⟩, chosenDto,
    ⟨"tied", "tied@example.test", 1, 2, [openKeyDto "tied" 1]⟩,
    ⟨"broken", "broken@example.test", 1, 4, [lockedKeyDto]⟩]

/-- The addresses cannot be fetched at first. -/
def fourCalls : List (Server × Request) :=
  [({ fourAddresses.server with addresses := .error .keysLocked }, .defaultAddress),
    (fourAddresses.server, .keyReport)]

/-- Every call of the sample is about the same account. -/
theorem fourCalls_of : ∀ action ∈ fourCalls, action.1.Of fourAddresses := by
  intro action haction
  rcases List.mem_cons.mp haction with rfl | haction
  · exact ⟨fourAddresses.server_of.keySalts, fourAddresses.server_of.users, nofun⟩
  · cases List.mem_singleton.mp haction
    exact fourAddresses.server_of

theorem fourAddresses_chosen :
    ∃ c, (calls sampleOps).exec fourAddresses.start.cache fourCalls = some c ∧
      (∃ c', (defaultAddress sampleOps fourAddresses.server).run c =
        some (c', .ok ⟨"chosen", "me@example.test", 2, 1, 1, "primary"⟩)) ∧
      (∃ c', (addressPrivateKeys sampleOps fourAddresses.server "chosen").run c =
        some (c', .ok ["other", "primary"])) ∧
      ∃ c', (resolveMembershipAddress sampleOps fourAddresses.server "chosen").run c =
        some (c', .ok ("chosen", "me@example.test", "primary")) := by
  refine ⟨_, rfl, ?_⟩
  have hreached : (calls sampleOps).exec fourAddresses.start.cache fourCalls = some _ := rfl
  obtain ⟨⟨c', r, hrun, hr⟩, hkeys⟩ := default_address_is_chosen fourCalls_of hreached
  have hall : ∀ d ∈ fourAddresses.response.addresses, d.id = chosenDto.id →
      (fourAddresses.opened sampleOps d).isSome := by decide
  -- The first by order is the second of the response, and it opens.
  have hchosen : r = .ok ⟨"chosen", "me@example.test", 2, 1, 1, "primary"⟩ :=
    (hr _).mpr ⟨chosenDto, ⟨[_], [_, _], rfl, by decide, by decide⟩, rfl, hall⟩
  rw [hchosen] at hrun
  -- Of its keys the second to open is the primary one.
  obtain ⟨es, e, hes, -, -, -, -, -, hprivate, hindex, hresolve⟩ :=
    hkeys [_] chosenDto [_, _] rfl ⟨"chosen", "me@example.test", 2, 1, 1, "primary"⟩ rfl (by decide)
  have hkeys : es.map Prod.snd = ["other", "primary"] := by
    have hentries : fourAddresses.entries sampleOps chosenDto =
        some [(openKeyDto "other" 0, "other"),
          (⟨"primary", "primary", some "token", some "signature", 1, 1⟩, "primary")] := rfl
    rw [← Option.some.inj (hentries.symm.trans hes)]
    rfl
  rw [hkeys] at hprivate hindex
  have hsigning : "primary" = e.2 := Option.some.inj hindex
  rw [← hsigning] at hresolve
  exact ⟨⟨c', hrun⟩, hprivate, hresolve (by decide)⟩

theorem fourAddresses_contained :
    ∃ c c' report ar kr, (calls sampleOps).exec fourAddresses.start.cache fourCalls = some c ∧
      (keyReport sampleOps fourAddresses.server).run c = some (c', .ok report) ∧
      report.addresses[1]? = some ar ∧ ar.id = "chosen" ∧ ar.keys[4]? = some kr ∧
      kr.id = "primary" ∧
      ((kr.unlocks ∧ (∃ u ∈ report.userKeys, u.active ∧ u.unlocks) ∧
          ∃ k ∈ ar.keys, k.active ∧ k.primary ∧ k.unlocks) ↔
        ∃ c₂ es, (addressPrivateKeys sampleOps fourAddresses.server chosenDto.id).run c =
            some (c₂, .ok (es.map Prod.snd)) ∧
          fourAddresses.entries sampleOps chosenDto = some es ∧
          ⟨"primary", "primary", some "token", some "signature", 1, 1⟩ ∈ es.map Prod.fst) := by
  have halone : ∀ d ∈ fourAddresses.response.addresses, d.id = chosenDto.id → d = chosenDto := by
    decide
  have hreached : (calls sampleOps).exec fourAddresses.start.cache fourCalls = some _ := rfl
  have hdto : fourAddresses.response.addresses[1]? = some chosenDto := rfl
  have hkeyDto : chosenDto.keys[4]? =
      some ⟨"primary", "primary", some "token", some "signature", 1, 1⟩ := rfl
  obtain ⟨ar, kr, h⟩ := contains_iff_reported fourCalls_of hreached rfl hdto halone hkeyDto rfl
  exact ⟨_, _, _, ar, kr, rfl, rfl, h⟩

/-- The primary key does not open, another active key does. -/
def lockedPrimary : AccountData :=
  sampleAccount [⟨"address", "me@example.test", 1, 1, [openKeyDto "other" 0, lockedKeyDto]⟩]

/-- The report shows a key that unlocks, and the unlock path hands none out. -/
theorem lockedPrimary_reported_not_contained :
    ((keyReport sampleOps lockedPrimary.server).run lockedPrimary.start.cache).map
        (fun p => p.2.map (fun report => report.addresses.map (fun ar =>
          ar.keys.map (fun kr => (kr.id, kr.active, kr.unlocks))))) =
      some (.ok [[("other", true, true), ("locked", true, false)]]) ∧
    ((addressPrivateKeys sampleOps lockedPrimary.server "address").run
        lockedPrimary.start.cache).map Prod.snd = some (.error (noPrimaryKey "address")) :=
  ⟨rfl, rfl⟩

/-- Two addresses under one id. -/
def sharedId (keys keys' : List AddressKeyDto) : AccountData :=
  sampleAccount [⟨"shared", "me@example.test", 1, 1, keys⟩, ⟨"shared", "me@example.test", 1, 2, keys'⟩]

/-- The first address opens, but another with its id does not, and there is no default address. And
where both open, the index of the first one leads to a key of the second that is not primary. -/
theorem sharedId_not_chosen :
    (¬ ∃ c' r, (defaultAddress sampleOps
          (sharedId [openKeyDto "primary" 1] [lockedKeyDto]).server).run
          (sharedId [openKeyDto "primary" 1] [lockedKeyDto]).start.cache = some (c', r) ∧
        ∀ ad, r = .ok ad ↔ ∃ dto,
          IsFirstMin AddressDto.order
            (sharedId [openKeyDto "primary" 1] [lockedKeyDto]).response.addresses dto ∧
          (sharedId [openKeyDto "primary" 1] [lockedKeyDto]).opened sampleOps dto = some ad) ∧
    (sharedId [openKeyDto "primary" 1] [openKeyDto "other" 0, openKeyDto "third" 1]).opened sampleOps
        ⟨"shared", "me@example.test", 1, 1, [openKeyDto "primary" 1]⟩ =
      some ⟨"shared", "me@example.test", 1, 1, 0, "primary"⟩ ∧
    ∃ c', (addressPrivateKeys sampleOps
        (sharedId [openKeyDto "primary" 1] [openKeyDto "other" 0, openKeyDto "third" 1]).server
        "shared").run
        (sharedId [openKeyDto "primary" 1] [openKeyDto "other" 0, openKeyDto "third" 1]).start.cache =
      some (c', .ok ["other", "third"]) := by
  refine ⟨?_, rfl, ?_⟩
  · -- The second address of the id fails, and the failure is recorded under the id.
    rintro ⟨c', r, hrun, hr⟩
    obtain ⟨c₁, r₁, hrun₁, hr₁⟩ := run_defaultAddress (consistent_start sampleOps
      (sharedId [openKeyDto "primary" 1] [lockedKeyDto]))
    rw [hrun] at hrun₁
    cases hrun₁
    have hok : r = .ok ⟨"shared", "me@example.test", 1, 1, 0, "primary"⟩ :=
      (hr _).mpr ⟨⟨"shared", "me@example.test", 1, 1, [openKeyDto "primary" 1]⟩,
        ⟨[], [_], rfl, by decide, by decide⟩, rfl⟩
    obtain ⟨dto, -, hopened, hall⟩ := (hr₁ _).mp hok
    have hid : dto.id = "shared" := ((AccountData.opened_order hopened).2).symm
    have hlocked := hall ⟨"shared", "me@example.test", 1, 2, [lockedKeyDto]⟩ (by decide) hid.symm
    cases hlocked
  · -- The keys of the later address take the place of those of the first.
    obtain ⟨c', r, hrun, -, hr⟩ := run_addressPrivateKeys (consistent_start sampleOps
      (sharedId [openKeyDto "primary" 1] [openKeyDto "other" 0, openKeyDto "third" 1])) "shared"
    rw [(hr _).mpr rfl] at hrun
    exact ⟨c', hrun⟩

end ProtonDrive.Account
