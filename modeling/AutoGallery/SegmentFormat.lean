import Mathlib.Data.Finmap
import Mathlib.Algebra.GroupWithZero.Nat

/-!
# The Gitllery v1 segment format

A repository is a directory with a configuration file, a manifest and a set of
compressed segment files named by the SHA-256 of their uncompressed text.  A
commit is a JSON object; it is stored as one or more *frames*, each repeating
the commit's header and carrying a bounded slice of its change list.  Frames
are packed into segments, and each segment names its predecessor.

This file holds the data of the format, its error messages, and the parts of
the Python runtime the module relies on (`Codec`).
-/

namespace Gitllery

def productVersion : String := "v1"
def formatId : String := "gitllery-segment"
def formatRevision : Nat := 1
def maxCommitsPerSegment : Nat := 100
def maxSegmentBytes : Nat := 4 * 1024 * 1024
def maxChangesPerFrame : Nat := 25
def maxFrameBytes : Nat := 1024 * 1024

/-- A JSON object with its keys in no particular order. -/
abbrev Dict (Value : Type) := Finmap fun _ : String => Value

/-- A commit as `append` receives it and as `iter_commits` returns it.  The
change list is split off from the other keys; `none` stands for a missing key
as well as for `None`. -/
structure Commit (Value : Type) where
  header : Dict Value
  changes : Option (List Value)
  header_changes : "changes" ∉ header

/-- One stored frame: the commit's header with the three keys the writer sets
itself kept apart. -/
structure Frame (Value : Type) where
  header : Dict Value
  frame : Nat
  frameCount : Nat
  changes : List Value
  header_frame : "frame" ∉ header
  header_frameCount : "frame_count" ∉ header
  header_changes : "changes" ∉ header

/-- The fields `_validate_header` looks at, as `dict.get` returns them. -/
structure Header where
  productVersion : Option String
  formatId : Option String
  formatRevision : Option Nat
deriving DecidableEq

/-- The header every file of this product version is written with. -/
def currentHeader : Header :=
  ⟨some productVersion, some formatId, some formatRevision⟩

structure Segment (Value Digest : Type) where
  header : Header
  repositoryId : String
  sequence : Nat
  previousSegment : Option Digest
  frames : List (Frame Value)

structure Config where
  header : Header
  repositoryId : String
  source : Option String
  creatorDir : Option String

/-- The manifest.  `lastCompletePosition` is the digest and the sequence number
of the head segment at the last publication. -/
structure Manifest (Digest : Type) where
  header : Header
  repositoryId : String
  generation : String
  headSegment : Option Digest
  lastCompleteCommitId : Option String
  lastCompletePosition : Option (Option Digest × Nat)
  segmentCount : Nat
  commitCount : Nat
  changeCount : Nat
  updatedAt : String

/-- Which file a header was read from. -/
inductive Kind
  | config | manifest | segment
deriving DecidableEq

def Kind.text : Kind → String
  | .config => "config"
  | .manifest => "manifest"
  | .segment => "segment"

/-- `GitlleryFormatError`, one constructor for each message of the module. -/
inductive FormatError (Digest : Type)
  | unsupportedProductVersion (kind : Kind)
  | unsupportedFormat (kind : Kind)
  | unsupportedFormatRevision (kind : Kind)
  | cannotReadManifest
  | invalidSegmentDigest
  | cannotReadSegment (digest : Digest)
  | segmentHashMismatch (digest : Digest)
  | segmentExceedsLimit
  | changeExceedsFrameLimit
  | commitIdRequired
  | doesNotFollow (commitId previousCommit : String)
  | frameExceedsSegmentLimit
  | chainContainsCycle
  | incompleteFrames (commitId : String)
  | frameHasNoCommitId
deriving DecidableEq

/-- The message carried by the exception. -/
def FormatError.text {Digest : Type} (hex : Digest → String) : FormatError Digest → String
  | .unsupportedProductVersion kind => "unsupported " ++ kind.text ++ " product version"
  | .unsupportedFormat kind => "unsupported " ++ kind.text ++ " format"
  | .unsupportedFormatRevision kind => "unsupported " ++ kind.text ++ " format revision"
  | .cannotReadManifest => "cannot read Gitllery manifest"
  | .invalidSegmentDigest => "invalid segment digest"
  | .cannotReadSegment digest => "cannot read segment " ++ hex digest
  | .segmentHashMismatch digest => "segment hash mismatch: " ++ hex digest
  | .segmentExceedsLimit => "segment exceeds 4 MiB uncompressed limit"
  | .changeExceedsFrameLimit => "one curation change exceeds 1 MiB frame limit"
  | .commitIdRequired => "commit_id is required"
  | .doesNotFollow commitId previous => "commit " ++ commitId ++ " does not follow " ++ previous
  | .frameExceedsSegmentLimit => "one continuation frame exceeds segment limit"
  | .chainContainsCycle => "segment chain contains a cycle"
  | .incompleteFrames commitId => "incomplete continuation frames for " ++ commitId
  | .frameHasNoCommitId => "segment frame has no commit_id"

/-- The two dictionaries whose canonical text the writer measures: a commit
header with part of its changes, and a whole segment. -/
inductive Document (Value Digest : Type)
  | partialFrame (base : Dict Value) (changes : List Value)
  | segment (segment : Segment Value Digest)

/-- The part of the runtime the module is written against: `str` and truth
value of JSON values, canonical JSON, zlib and SHA-256.  The laws are the
round trips of JSON and zlib, the freedom from collisions of the digest, and
that a hexadecimal digest passes the syntactic check of `_segment_path`. -/
structure Codec (Value Bytes Digest : Type) where
  str : Value → String
  truthy : Value → Bool
  canonicalBytes : Document Value Digest → Bytes
  len : Bytes → Nat
  loads : Bytes → Option (Segment Value Digest)
  compress : Bytes → Bytes
  decompress : Bytes → Option Bytes
  digestBytes : Bytes → Digest
  validDigest : Digest → Bool
  loads_canonicalBytes : ∀ s, loads (canonicalBytes (.segment s)) = some s
  decompress_compress : ∀ b, decompress (compress b) = some b
  digestBytes_injective : Function.Injective digestBytes
  validDigest_digestBytes : ∀ b, validDigest (digestBytes b) = true

variable {Value Bytes Digest : Type}

/-- `_validate_header`. -/
def validateHeader (h : Header) (kind : Kind) : Except (FormatError Digest) Unit :=
  if h.productVersion ≠ some productVersion then
    .error (.unsupportedProductVersion kind)
  else if h.formatId ≠ some formatId then
    .error (.unsupportedFormat kind)
  else if h.formatRevision ≠ some formatRevision then
    .error (.unsupportedFormatRevision kind)
  else .ok ()

@[simp] theorem validateHeader_currentHeader (kind : Kind) :
    (validateHeader currentHeader kind : Except (FormatError Digest) Unit) = .ok () := by
  simp [validateHeader, currentHeader]

namespace Codec

variable (C : Codec Value Bytes Digest)

/-- `str(value)` of what `dict.get` returned: a missing key reads as `None`. -/
def strGet : Option Value → String
  | none => "None"
  | some v => C.str v

/-- `str(value or "")` of what `dict.get` returned. -/
def strOr : Option Value → String
  | none => ""
  | some v => if C.truthy v then C.str v else ""

/-- A non-empty `str(value or "")` is `str(value)`. -/
theorem strGet_of_strOr {v : Option Value} (h : C.strOr v ≠ "") : C.strGet v = C.strOr v := by
  cases v with
  | none => simp [strOr] at h
  | some v =>
    by_cases ht : C.truthy v = true
    · simp [strOr, strGet, ht]
    · simp [strOr, ht] at h

end Codec

/-- The identifier a commit is stored and grouped under. -/
def Commit.commitId (C : Codec Value Bytes Digest) (c : Commit Value) : String :=
  C.strOr (c.header.lookup "commit_id")

/-- `str(commit.get("parent_commit_id"))`. -/
def Commit.parentId (C : Codec Value Bytes Digest) (c : Commit Value) : String :=
  C.strGet (c.header.lookup "parent_commit_id")

/-- `commit.get("changes") or []`. -/
def Commit.changeList (c : Commit Value) : List Value :=
  c.changes.getD []

/-- The identifier a reader groups a frame under. -/
def Frame.commitId (C : Codec Value Bytes Digest) (f : Frame Value) : String :=
  C.strOr (f.header.lookup "commit_id")

/-- `{**base, "frame": index, "frame_count": count, "changes": chunk}`. -/
def Frame.ofBase (base : Dict Value) (hbase : "changes" ∉ base) (index count : Nat)
    (chunk : List Value) : Frame Value where
  header := (base.erase "frame").erase "frame_count"
  frame := index
  frameCount := count
  changes := chunk
  header_frame := by simp [Finmap.mem_erase]
  header_frameCount := by simp [Finmap.mem_erase]
  header_changes := by simp [Finmap.mem_erase, hbase]

end Gitllery
