/-!
# Ids

What the server names its things by. To most of the client an id is only the same as another or not,
and is a number here. Where its text is read, in the key of a cache or in the answer to an upload, a
node has a `TextNodeUid`.
-/

namespace ProtonDrive

abbrev VolumeId := Nat
abbrev LinkId := Nat
abbrev RevisionId := Nat
abbrev ShareId := String

structure NodeUid where
  volumeId : VolumeId
  linkId : LinkId
  deriving DecidableEq, Repr

/-- A uid as messages have it. -/
def NodeUid.text (uid : NodeUid) : String := toString uid.volumeId ++ "~" ++ toString uid.linkId

/-- A uid by the texts of its ids. -/
structure TextNodeUid where
  volumeId : String
  linkId : String
  deriving DecidableEq, Repr

def TextNodeUid.text (uid : TextNodeUid) : String := uid.volumeId ++ "~" ++ uid.linkId

end ProtonDrive
