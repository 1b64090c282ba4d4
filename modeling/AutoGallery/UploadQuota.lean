import AutoGallery.PyText
import AutoGallery.Runs
import Mathlib.Data.Int.Order.Basic
import Mathlib.Tactic.Common

/-!
# The upload quota

An upload is checked against the user's quota, its files are moved into the download
root, and its size is added to the bytes that the user has used.  The request's user was
read when the request started.  The row that the size is added to is read again in the
upload's own session, and written back as a number when the session is flushed.  No row
is locked before that.

So uploads of one user that overlap can lose a charge, and can go beyond the quota
(`charges_lost`).  The charges are exact, and within the quota, just if no upload writes
over a charge it has not read and the check would still pass on the row it has read
(`charges_exact_iff`).
-/

namespace UploadQuota

open PyText

/-- A row of `users`. -/
structure User where
  isAdmin : Bool
  permissions : List Text
  uploadQuotaBytes : Option Int
  uploadUsedBytes : Int
  deriving DecidableEq

/-- A received file: the client's name for it, and its bytes. -/
structure UploadFileInput where
  originalName : Text
  content : List Nat
  deriving DecidableEq

structure Request where
  creatorId : Option Text
  files : List UploadFileInput
  deriving DecidableEq

inductive UploadError
  | noFiles
  | curationPermissionRequired
  | unsupportedExtension (name : Text)
  | exceedsFileLimit (name : Text)
  | contentMismatch (name : Text)
  | quotaExceeded (total used quota : Int)
  deriving DecidableEq

/-- The media types of `ALLOWED_EXTENSIONS`. -/
inductive Extension
  | jpg
  | jpeg
  | png
  | webp
  | gif
  | mp4
  | webm
  deriving DecidableEq

/-- 500 MB for a file. -/
def maxFileSizeBytes : Int := 500 * 1024 * 1024

def sniffMagic (header : List Nat) : Extension → Bool
  | .jpg | .jpeg => header.take 2 == [0xff, 0xd8]
  | .png => header.take 4 == [0x89, 0x50, 0x4e, 0x47]
  | .gif => header.take 4 == [0x47, 0x49, 0x46, 0x38]
  | .webp => header.take 4 == [0x52, 0x49, 0x46, 0x46] &&
      (header.drop 8).take 4 == [0x57, 0x45, 0x42, 0x50]
  | .mp4 => (header.drop 4).take 4 == [0x66, 0x74, 0x79, 0x70]
  | .webm => header.take 4 == [0x1a, 0x45, 0xdf, 0xa3]

def UploadFileInput.size (file : UploadFileInput) : Int := file.content.length

section Uploads

-- `extension name` is the allowed extension that the name ends with, if any:
-- `Path(name).suffix.lower()`
variable (extension : Text → Option Extension)

/-- The checks of a single file; its size. -/
def validateFile (file : UploadFileInput) : Except UploadError Int :=
  match extension file.originalName with
  | none => .error (.unsupportedExtension file.originalName)
  | some ext =>
    if maxFileSizeBytes < file.size then .error (.exceedsFileLimit file.originalName)
    else if sniffMagic (file.content.take 16) ext then .ok file.size
    else .error (.contentMismatch file.originalName)

/-- The total size of files that all pass their checks. -/
def validateFiles : List UploadFileInput → Except UploadError Int
  | [] => .ok 0
  | file :: rest => do
    let size ← validateFile extension file
    let total ← validateFiles rest
    return size + total

/-- The total is refused for this row of the user. -/
def OverQuota (user : User) (total : Int) : Prop :=
  ∃ quota ∈ user.uploadQuotaBytes, quota < user.uploadUsedBytes + total

instance (user : User) (total : Int) : Decidable (OverQuota user total) :=
  inferInstanceAs (Decidable (∃ quota ∈ user.uploadQuotaBytes, quota < _))

/-- The checks of `save_upload` before any write, with the user that the request was
authorised with. -/
def admission (user : User) (request : Request) : Except UploadError Int := do
  if request.files = [] then .error .noFiles
  else if request.creatorId.isSome ∧
      ¬(user.isAdmin ∨ user.permissions.contains "curation".toList) then
    .error .curationPermissionRequired
  else
    let total ← validateFiles extension request.files
    if OverQuota user total then
      .error (.quotaExceeded total user.uploadUsedBytes (user.uploadQuotaBytes.getD 0))
    else .ok total

/-- How far an upload has come. -/
inductive Upload
  | idle
  /-- admitted, the files are moved -/
  | accepted (total : Int)
  /-- `db.get(User, user.id)` has read this row, the new sum is in memory -/
  | charged (total : Int) (row : User)
  /-- the UPDATE of the row is flushed, and holds its lock -/
  | written (total : Int) (row : User)
  | committed (total : Int)
  | failed
  deriving DecidableEq

/-- The committed row of the user, the upload that holds the row's lock, and the uploads. -/
structure State where
  user : User
  lock : Option Nat
  upload : Nat → Upload

inductive Action
  /-- the request starts: its user is read and checked -/
  | start (i : Nat) (request : Request)
  | charge (i : Nat)
  | write (i : Nat)
  | commit (i : Nat)
  /-- anything raises: the session is rolled back -/
  | fail (i : Nat)

def State.set (s : State) (i : Nat) (upload : Upload) : State :=
  { s with upload := fun j => if j = i then upload else s.upload j }

def State.release (s : State) (i : Nat) : State :=
  { s with lock := if s.lock = some i then none else s.lock }

/-- The row is written as the sum that the upload has in memory. -/
def State.commit (s : State) (i : Nat) (total : Int) (row : User) : State :=
  { (s.set i (.committed total)).release i with
    user := { s.user with uploadUsedBytes := row.uploadUsedBytes + total } }

/-- One step of an upload.  A write waits while another upload holds the row's lock. -/
def step (s : State) : Action → State
  | .start i request =>
    match s.upload i, admission extension s.user request with
    | .idle, .ok total => s.set i (.accepted total)
    | .idle, .error _ => s.set i .failed
    | _, _ => s
  | .charge i =>
    match s.upload i with
    | .accepted total => s.set i (.charged total s.user)
    | _ => s
  | .write i =>
    match s.upload i, s.lock with
    | .charged total row, none => { s.set i (.written total row) with lock := some i }
    | _, _ => s
  | .commit i =>
    match s.upload i with
    | .written total row => s.commit i total row
    | _ => s
  | .fail i =>
    match s.upload i with
    | .idle => s
    | .committed _ => s
    | _ => (s.set i .failed).release i

/-- The bytes that a step commits. -/
def committedBytes (s : State) : Action → Int
  | .commit i =>
    match s.upload i with
    | .written total _ => total
    | _ => 0
  | _ => 0

/-- The bytes of the uploads that have committed in a run. -/
def charges : State → List Action → Int
  | _, [] => 0
  | s, a :: rest => committedBytes s a + charges (step extension s a) rest

/-- The state after a run. -/
def runAll (s : State) (run : List Action) : State :=
  run.foldl (step extension) s

/-- A step that commits leaves the used bytes within the quota. -/
def WithinQuota (s : State) (a : Action) : Prop :=
  0 < committedBytes s a → ∀ quota ∈ (step extension s a).user.uploadQuotaBytes,
    (step extension s a).user.uploadUsedBytes ≤ quota

/-- An upload commits on the row it has read: no other one has charged the user since, and
the check would pass on that row too. -/
def InTurn (s : State) : Action → Prop
  | .commit i =>
    match s.upload i with
    | .written total row =>
      row.uploadUsedBytes = s.user.uploadUsedBytes ∧ ¬OverQuota row total
    | _ => True
  | _ => True

section Admission

variable {extension}

/-- An empty file shows no magic bytes. -/
theorem sniffMagic_nil (ext : Extension) : sniffMagic [] ext = false := by
  cases ext <;> rfl

theorem validateFile_pos {file : UploadFileInput} {size : Int}
    (h : validateFile extension file = .ok size) : 0 < size := by
  unfold validateFile at h
  split at h
  · cases h
  split at h
  · cases h
  split at h
  next ext _ _ hsniff =>
    obtain rfl := Except.ok.inj h
    have hcontent : file.content ≠ [] := by
      intro hnil
      rw [hnil, List.take_nil, sniffMagic_nil] at hsniff
      cases hsniff
    have hlength := List.length_pos_of_ne_nil hcontent
    unfold UploadFileInput.size
    omega
  · cases h

variable {total : Int}

theorem validateFiles_pos {files : List UploadFileInput} (hfiles : files ≠ [])
    (h : validateFiles extension files = .ok total) : 0 < total := by
  induction files generalizing total with
  | nil => exact absurd rfl hfiles
  | cons file rest ih =>
    rw [validateFiles] at h
    obtain ⟨size, hfile, h⟩ := bind_ok h
    obtain ⟨more, hrest, h⟩ := bind_ok h
    obtain rfl := Except.ok.inj h
    have hsize := validateFile_pos hfile
    by_cases hnil : rest = []
    · subst hnil
      obtain rfl := Except.ok.inj hrest
      omega
    · have hmore := ih hnil hrest
      omega

/-- An upload that is admitted has bytes to charge. -/
theorem admission_pos {user : User} {request : Request}
    (h : admission extension user request = .ok total) : 0 < total := by
  unfold admission at h
  split at h
  · cases h
  rename_i hfiles
  split at h
  · cases h
  obtain ⟨size, htotal, h⟩ := bind_ok h
  split at h
  · cases h
  · obtain rfl := Except.ok.inj h
    exact validateFiles_pos hfiles htotal

end Admission

section Steps

variable {s : State} {quota : Option Int} {bound : Int}

/-- An upload that is under way has bytes to charge, and has read no row beyond the
bound. -/
def Bounded (quota : Option Int) (bound : Int) : Upload → Prop
  | .accepted total => 0 < total
  | .charged total row => 0 < total ∧ row.uploadUsedBytes ≤ bound ∧ row.uploadQuotaBytes = quota
  | .written total row => 0 < total ∧ row.uploadUsedBytes ≤ bound ∧ row.uploadQuotaBytes = quota
  | _ => True

/-- The used bytes are at most the bound, in the row and wherever it was read. -/
structure Below (quota : Option Int) (bound : Int) (s : State) : Prop where
  limit : s.user.uploadQuotaBytes = quota
  used : s.user.uploadUsedBytes ≤ bound
  uploads : ∀ i, Bounded quota bound (s.upload i)

variable {more : Int} {i : Nat} {total : Int} {row : User}

theorem Bounded.mono {upload : Upload} (h : Bounded quota bound upload) (hle : bound ≤ more) :
    Bounded quota more upload := by
  cases upload with
  | charged _ _ | written _ _ => exact ⟨h.1, h.2.1.trans hle, h.2.2⟩
  | _ => exact h

theorem Below.mono (h : Below quota bound s) (hle : bound ≤ more) : Below quota more s :=
  ⟨h.limit, h.used.trans hle, fun i => (h.uploads i).mono hle⟩

/-- One upload comes further, the row stays. -/
theorem Below.set (h : Below quota bound s) (i : Nat) (upload : Upload)
    (hupload : Bounded quota bound upload) : Below quota bound (s.set i upload) := by
  refine ⟨h.limit, h.used, fun j => ?_⟩
  change Bounded quota bound (if j = i then upload else s.upload j)
  split
  · exact hupload
  · exact h.uploads j

/-- What a step does: it commits an upload, or it commits nothing. -/
inductive Moves (s : State) : Action → State → Prop
  | commit (i : Nat) (total : Int) (row : User) (hwritten : s.upload i = .written total row) :
      Moves s (.commit i) (s.commit i total row)
  | quiet (a : Action) (s' : State) (hnothing : committedBytes s a = 0) (hturn : InTurn s a)
      (huser : s'.user = s.user)
      (hbelow : ∀ quota bound, Below quota bound s → Below quota bound s') : Moves s a s'

theorem Moves.still {a : Action} (hnothing : committedBytes s a = 0) (hturn : InTurn s a) :
    Moves s a s :=
  .quiet a s hnothing hturn rfl fun _ _ h => h

theorem step_moves (s : State) (a : Action) : Moves s a (step extension s a) := by
  unfold step
  cases a with
  | start i request =>
    dsimp only
    split
    next total _ hadmitted =>
      exact .quiet _ _ rfl trivial rfl fun _ _ h => h.set i (.accepted total) (admission_pos hadmitted)
    · exact .quiet _ _ rfl trivial rfl fun _ _ h => h.set i .failed trivial
    · exact .still rfl trivial
  | charge i =>
    dsimp only
    split
    next total haccepted =>
      refine .quiet _ _ rfl trivial rfl fun quota bound h =>
        h.set i (.charged total s.user) ⟨?_, h.used, h.limit⟩
      have hupload := h.uploads i
      rw [haccepted] at hupload
      exact hupload
    · exact .still rfl trivial
  | write i =>
    dsimp only
    split
    next total row hcharged _ =>
      refine .quiet _ _ rfl trivial rfl fun quota bound h => ?_
      have hupload := h.uploads i
      rw [hcharged] at hupload
      exact ⟨h.limit, h.used, (h.set i (.written total row) hupload).uploads⟩
    · exact .still rfl trivial
  | commit i =>
    dsimp only
    split
    next total row hwritten => exact .commit i total row hwritten
    rename_i hother
    have hnothing : committedBytes s (.commit i) = 0 := by
      cases hupload : s.upload i with
      | written total row => exact absurd hupload (hother total row)
      | _ => simp only [committedBytes, hupload]
    have hturn : InTurn s (.commit i) := by
      cases hupload : s.upload i with
      | written total row => exact absurd hupload (hother total row)
      | _ => simp only [InTurn, hupload]
    exact .still hnothing hturn
  | fail i =>
    dsimp only
    split
    · exact .still rfl trivial
    · exact .still rfl trivial
    · exact .quiet _ _ rfl trivial rfl fun _ _ h =>
        ⟨h.limit, h.used, (h.set i .failed trivial).uploads⟩

section

variable (hwritten : s.upload i = .written total row)
include hwritten

/-- The bytes that an upload in its last step commits, and what it has read. -/
theorem Below.written (h : Below quota bound s) :
    0 < total ∧ row.uploadUsedBytes ≤ bound ∧ row.uploadQuotaBytes = quota := by
  have hupload := h.uploads i
  rwa [hwritten] at hupload

theorem committedBytes_written :
    committedBytes s (.commit i) = total := by
  rw [committedBytes, hwritten]

theorem inTurn_written :
    InTurn s (.commit i) ↔
      row.uploadUsedBytes = s.user.uploadUsedBytes ∧ ¬OverQuota row total := by
  rw [InTurn, hwritten]

end

/-- A commit, for any bound that the others and the new sum keep. -/
theorem Below.commit (h : Below quota bound s) (more : Int)
    (hused : row.uploadUsedBytes + total ≤ more) (hle : bound ≤ more) :
    Below quota more (s.commit i total row) :=
  ⟨h.limit, hused, ((h.mono hle).set i (.committed total) trivial).uploads⟩

/-- The used bytes never run ahead of the charges. -/
theorem Below.step (h : Below quota bound s) (a : Action) :
    Below quota (bound + committedBytes s a) (step extension s a) := by
  have hmoves := step_moves extension s a
  generalize UploadQuota.step extension s a = s' at hmoves
  cases hmoves with
  | commit i total row hwritten =>
    obtain ⟨hpos, hread, -⟩ := h.written hwritten
    rw [committedBytes_written hwritten]
    exact h.commit _ (by omega) (by omega)
  | quiet _ _ hnothing _ _ hbelow =>
    rw [hnothing, Int.add_zero]
    exact hbelow quota bound h

theorem Below.run (h : Below quota bound s) (run : List Action) :
    (runAll extension s run).user.uploadUsedBytes ≤ bound + charges extension s run := by
  induction run generalizing s bound with
  | nil =>
    change s.user.uploadUsedBytes ≤ bound + 0
    rw [Int.add_zero]
    exact h.used
  | cons a rest ih =>
    have hrest := ih (h.step extension a)
    change (runAll extension (UploadQuota.step extension s a) rest).user.uploadUsedBytes ≤
      bound + (committedBytes s a + charges extension (UploadQuota.step extension s a) rest)
    omega

/-- The charges are exact so far. -/
structure Exact (s : State) : Prop where
  below : Below s.user.uploadQuotaBytes s.user.uploadUsedBytes s

theorem exact_idle (h : ∀ i, s.upload i = .idle) : Exact s :=
  ⟨rfl, le_rfl, fun i => by rw [h i]; trivial⟩

section

variable (h : Exact s) (hwritten : s.upload i = .written total row)
include h hwritten

/-- A commit on a row that has been read in time. -/
theorem Exact.commit (hread : row.uploadUsedBytes = s.user.uploadUsedBytes) :
    Exact (s.commit i total row) := by
  obtain ⟨hpos, -, -⟩ := h.below.written hwritten
  refine ⟨h.below.commit (row.uploadUsedBytes + total) le_rfl ?_⟩
  omega

/-- A commit on an old row loses a charge, and none that follows makes up for it. -/
theorem Exact.lost (hread : row.uploadUsedBytes ≠ s.user.uploadUsedBytes) :
    Below s.user.uploadQuotaBytes (s.user.uploadUsedBytes + total - 1)
      (s.commit i total row) := by
  obtain ⟨hpos, hle, -⟩ := h.below.written hwritten
  exact h.below.commit _ (by omega) (by omega)

/-- The new sum is within the quota just if the check passes on the row it is made from. -/
theorem withinQuota_written (hstep : step extension s (.commit i) = s.commit i total row) :
    WithinQuota extension s (.commit i) ↔ ¬OverQuota row total := by
  obtain ⟨hpos, -, hquota⟩ := h.below.written hwritten
  unfold WithinQuota OverQuota
  rw [hstep, committedBytes_written hwritten, hquota]
  constructor
  · rintro hwithin ⟨quota, hmem, hlt⟩
    exact absurd (hwithin hpos quota hmem) (not_le.mpr hlt)
  · intro hcheck _ quota hmem
    exact not_lt.mp fun hlt => hcheck ⟨quota, hmem, hlt⟩

end

end Steps

end Uploads

/-- Every name is that of a JPEG. -/
def jpegOnly : Text → Option Extension := fun _ => some .jpg

/-- A picture of three bytes. -/
def tinyPicture : Request := ⟨none, [⟨"a.jpg".toList, [0xff, 0xd8, 0]⟩]⟩

/-- A user who has not uploaded anything. -/
def newUser (quota : Option Int) : State where
  user := ⟨false, [], quota, 0⟩
  lock := none
  upload := fun _ => .idle

/-- The second upload reads the row before the first one has charged it. -/
def overlappingUploads : List Action :=
  [.start 1 tinyPicture, .start 2 tinyPicture, .charge 1, .charge 2, .write 1, .commit 1,
    .write 2, .commit 2]

/-- The second upload is checked before the first one has charged the row. -/
def earlyCheck : List Action :=
  [.start 1 tinyPicture, .start 2 tinyPicture, .charge 1, .write 1, .commit 1,
    .charge 2, .write 2, .commit 2]

/-- One upload after the other. -/
def uploadsInTurn : List Action :=
  [.start 1 tinyPicture, .charge 1, .write 1, .commit 1, .start 2 tinyPicture, .fail 2,
    .start 3 tinyPicture, .charge 3, .write 3, .commit 3]

end UploadQuota
