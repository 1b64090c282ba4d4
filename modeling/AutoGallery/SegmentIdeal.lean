import AutoGallery.SegmentFormat

/-!
# A runtime that meets the laws

The laws of `Codec` ask for a digest without collisions.  Free terms have one:
the text of a document is the document itself and its digest is its text.  The
instance shows that the laws can be met together, and runs of the model can be
evaluated in it.
-/

namespace Gitllery

/-- The JSON values of the instance. -/
inductive Scalar
  | null
  | text (s : String)
deriving DecidableEq

def Scalar.str : Scalar → String
  | .null => "None"
  | .text s => s

def Scalar.truthy : Scalar → Bool
  | .null => false
  | .text s => s ≠ ""

deriving instance DecidableEq for Frame

/-- Texts and digests: a part of a frame, or a segment with or without a
predecessor. -/
inductive Ideal
  | partialFrame (base : Dict Scalar) (changes : List Scalar)
  | firstSegment (header : Header) (repositoryId : String) (sequence : Nat)
      (frames : List (Frame Scalar))
  | nextSegment (header : Header) (repositoryId : String) (sequence : Nat) (previous : Ideal)
      (frames : List (Frame Scalar))
deriving DecidableEq

def Ideal.ofDocument : Document Scalar Ideal → Ideal
  | .partialFrame base changes => .partialFrame base changes
  | .segment ⟨header, repositoryId, sequence, none, frames⟩ =>
    .firstSegment header repositoryId sequence frames
  | .segment ⟨header, repositoryId, sequence, some previous, frames⟩ =>
    .nextSegment header repositoryId sequence previous frames

def Ideal.segment : Ideal → Option (Segment Scalar Ideal)
  | .partialFrame _ _ => none
  | .firstSegment header repositoryId sequence frames =>
    some ⟨header, repositoryId, sequence, none, frames⟩
  | .nextSegment header repositoryId sequence previous frames =>
    some ⟨header, repositoryId, sequence, some previous, frames⟩

/-- The length of a text counts the characters of the changes it carries. -/
def Ideal.len : Ideal → Nat
  | .partialFrame _ changes => (changes.map fun v => v.str.length).sum
  | .firstSegment _ _ _ frames => frameLen frames
  | .nextSegment _ _ _ _ frames => frameLen frames
where
  frameLen (frames : List (Frame Scalar)) : Nat :=
    (frames.map fun f => (f.changes.map fun v => v.str.length).sum).sum

def idealCodec : Codec Scalar Ideal Ideal where
  str := Scalar.str
  truthy := Scalar.truthy
  canonicalBytes := Ideal.ofDocument
  len := Ideal.len
  loads := Ideal.segment
  compress := id
  decompress := some
  digestBytes := id
  validDigest := fun _ => true
  loads_canonicalBytes := by
    rintro ⟨header, repositoryId, sequence, previous, frames⟩
    cases previous <;> rfl
  decompress_compress := fun _ => rfl
  digestBytes_injective := Function.injective_id
  validDigest_digestBytes := fun _ => rfl

/-- A commit of the instance: its id, its parent's id and its changes. -/
def idealCommit (commitId parentId : Scalar) (changes : Option (List Scalar)) : Commit Scalar where
  header := ((∅ : Dict Scalar).insert "parent_commit_id" parentId).insert "commit_id" commitId
  changes := changes
  header_changes := by simp [Finmap.mem_insert, Finmap.notMem_empty]

end Gitllery
