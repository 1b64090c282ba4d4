import AutoGallery.ArtifactLedger
import AutoGallery.Leases

/-!
# Who holds a work

An execution may work on a work while it holds the leases of its metadata rows, and two
executions never should.  The transactions of the ledger do not see to this by
themselves: `claim_work_batch` looks for other leases in its snapshot, and locks no more
than one row of the work (`works_leased_twice`).

They keep the leases exclusive as long as two transactions that are open at the same time
do not lease the same work, every claim names its source, and a file stays registered
under one work (`leases_stay_exclusive`).
-/

namespace ArtifactLedger

open Interleaving Leases PyText ReadCommitted List Pool
open Table (mem_view current_mem)

variable {row new : Artifact} {rows : List Artifact} {now : Time} {registry : Registry}
  {a : Lease File Identity (Option Uuid) Time} {F W : Identity → Prop} {token : Uuid} {k : Seat}
  {s t : Ledger Seat} {G : Identity → Prop}

/-- A work, by source and work id. -/
abbrev Identity := Text × Text

def Artifact.work (row : Artifact) : Identity :=
  (row.source, row.sourceWorkId)

/-- The lease that a metadata row carries while it is imported. -/
def Artifact.lease (row : Artifact) : Option (Lease File Identity (Option Uuid) Time) :=
  if row.artifactType = .metadataJson ∧ row.state = .importing then
    row.leaseExpiresAt.map fun expires => ⟨row.file, row.work, row.leaseToken, expires⟩
  else none

def leases (rows : List Artifact) : List (Lease File Identity (Option Uuid) Time) :=
  rows.filterMap Artifact.lease

/-- The work and the type under which a file is registered. -/
abbrev Registry := File → Identity × ArtifactType

/-- The row agrees with the registry, and only a row of a download is leased. -/
structure Registered (registry : Registry) (row : Artifact) : Prop where
  described : registry row.file = (row.work, row.artifactType)
  leased : ∀ a, row.lease = some a → row.storageRoot = .downloads

section Rows

theorem mem_leases : a ∈ leases rows ↔ ∃ row ∈ rows, row.lease = some a :=
  mem_filterMap

theorem lease_eq_some : row.lease = some a ↔ row.artifactType = .metadataJson ∧
    row.state = .importing ∧ row.leaseExpiresAt = some a.expires ∧ row.file = a.row ∧
    row.work = a.work ∧ row.leaseToken = a.token := by
  unfold Artifact.lease
  split
  case isTrue h =>
    simp only [h, true_and, Option.map_eq_some_iff]
    constructor
    · rintro ⟨expires, hexpires, rfl⟩
      exact ⟨hexpires, rfl, rfl, rfl⟩
    · rintro ⟨hexpires, hrow, hwork, htoken⟩
      exact ⟨a.expires, hexpires, by rw [hrow, hwork, htoken]⟩
  case isFalse h =>
    constructor
    · intro hnone
      cases hnone
    · rintro ⟨htype, hstate, -⟩
      exact absurd ⟨htype, hstate⟩ h

theorem lease_file (h : row.lease = some a) : row.file = a.row :=
  (lease_eq_some.mp h).2.2.2.1

theorem lease_eq_none (h : row.leaseExpiresAt = none) : row.lease = none := by
  rw [Artifact.lease, h, Option.map_none, ite_self]

theorem lease_marked (state : ArtifactState) : (row.marked state).lease = none :=
  lease_eq_none rfl

theorem lease_inserted (new : NewArtifact) : new.inserted.lease = none :=
  lease_eq_none rfl

theorem file_refreshed (new : NewArtifact) : (row.refreshed new).file = row.file := rfl

/-- An upsert takes the lease away, or leaves it where it was if the file stays with its
work. -/
theorem lease_refreshed {new : NewArtifact} (hwork : new.inserted.work = row.work)
    (htype : new.artifactType = row.artifactType) (h : (row.refreshed new).lease = some a) :
    row.lease = some a := by
  obtain ⟨hmeta, hstate, hexpires, hfile, hwork', htoken⟩ := lease_eq_some.mp h
  by_cases hrefresh : (row.mtimeNs != new.mtimeNs || row.state == .failed) = true
  · simp [Artifact.refreshed, hrefresh] at hexpires
  · simp only [Artifact.refreshed, hrefresh] at hmeta hstate hexpires htoken
    exact lease_eq_some.mpr ⟨htype ▸ hmeta, hstate, hexpires, hfile, hwork ▸ hwork', htoken⟩

/-- What an UPDATE may do to a row's lease, for the works `F` that the transaction leases
and the works `W` it has found without a holder. -/
structure Fits (F W : Identity → Prop) (token : Uuid) (now : Time) (row new : Artifact) :
    Prop where
  file : new.file = row.file
  work : new.work = row.work
  type : new.artifactType = row.artifactType
  lease : ∀ a, new.lease = some a → row.lease = some a ∨
    (F a.work ∧ ∃ b, row.lease = some b ∧ b.work = a.work ∧ b.token = a.token ∧ now < b.expires) ∨
    (W a.work ∧ a.token = some token ∧ row.storageRoot = .downloads)

/-- A row that loses its lease. -/
theorem fits_marked (F W : Identity → Prop) (token : Uuid) (now : Time) (row : Artifact)
    (state : ArtifactState) : Fits F W token now row (row.marked state) where
  file := rfl
  work := rfl
  type := rfl
  lease a h := by
    rw [lease_marked] at h
    cases h

theorem Fits.registered (h : Fits F W token now row new) (hrow : Registered registry row) :
    Registered registry new where
  described := by rw [h.file, h.work, h.type, hrow.described]
  leased a ha := by
    have hroot : new.storageRoot = row.storageRoot := congrArg Prod.fst h.file
    rw [hroot]
    rcases h.lease a ha with hkept | ⟨-, b, hb, -⟩ | ⟨-, -, hdownloads⟩
    · exact hrow.leased a hkept
    · exact hrow.leased b hb
    · exact hdownloads

end Rows

/-- What holds of the ledger between two steps. -/
structure Orderly (registry : Registry) (s : Ledger Seat) : Prop where
  exclusive : Exclusive s.clock (leases s.table.rows)
  registered : ∀ row ∈ s.table.rows, Registered registry row

/-- What a transaction relies on: the rows it has locked stay as they are, and nobody else
leases one of its works. -/
structure Undisturbed (F : Identity → Prop) (k : Seat) (s t : Ledger Seat) : Prop where
  clock : s.clock ≤ t.clock
  pending : t.table.pending k = s.table.pending k
  lock : ∀ file, s.table.lock file = some k → t.table.lock file = some k
  locked : ∀ row : Artifact, s.table.lock row.file = some k →
    (row ∈ t.table.rows ↔ row ∈ s.table.rows)
  shrinks : ∀ a ∈ leases t.table.rows, F a.work → a ∈ leases s.table.rows

/-- What a transaction guarantees: the writes, the locks and the locked rows of the others
stay as they are, and it leases no work but its own. -/
structure Confined (F : Identity → Prop) (k : Seat) (s t : Ledger Seat) : Prop where
  clock : t.clock = s.clock
  pending : ∀ l, l ≠ k → t.table.pending l = s.table.pending l
  lock : ∀ l, l ≠ k → ∀ file, s.table.lock file = some l → t.table.lock file = some l
  locked : ∀ l, l ≠ k → ∀ row : Artifact, s.table.lock row.file = some l →
    (row ∈ t.table.rows ↔ row ∈ s.table.rows)
  shrinks : ∀ a ∈ leases t.table.rows, ¬F a.work → a ∈ leases s.table.rows

/-- The contract of a transaction that leases the works `F`. -/
def ledgerContract (registry : Registry) (F : Identity → Prop) (k : Seat) :
    Contract (Ledger Seat) where
  inv := Orderly registry
  rely := Undisturbed F k
  guarantee := Confined F k
  rely_refl _ := ⟨le_rfl, rfl, fun _ h => h, fun _ _ => Iff.rfl, fun _ h _ => h⟩
  rely_trans _ _ _ hst htu :=
    ⟨hst.clock.trans htu.clock, htu.pending.trans hst.pending,
      fun file h => htu.lock file (hst.lock file h),
      fun row h => (htu.locked row (hst.lock _ h)).trans (hst.locked row h),
      fun a ha hF => hst.shrinks a (htu.shrinks a ha hF) hF⟩

variable {seats : List Seat}

/-- What one transaction guarantees is what another one relies on, if they lease different
works. -/
theorem Confined.undisturbed {l : Seat} (h : Confined F k s t) (hne : l ≠ k)
    (hapart : ∀ w, G w → ¬F w) : Undisturbed G l s t where
  clock := h.clock.ge
  pending := h.pending l hne
  lock := h.lock l hne
  locked := h.locked l hne
  shrinks a ha hG := h.shrinks a ha (hapart _ hG)

/-- A step that publishes nothing. -/
theorem Confined.of_rows (hclock : t.clock = s.clock) (hrows : t.table.rows = s.table.rows)
    (hpending : ∀ l, l ≠ k → t.table.pending l = s.table.pending l)
    (hlock : ∀ l, l ≠ k → ∀ file, s.table.lock file = some l → t.table.lock file = some l) :
    Confined F k s t where
  clock := hclock
  pending := hpending
  lock := hlock
  locked l hne row h := by rw [hrows]
  shrinks a ha hF := by rwa [hrows] at ha

theorem Confined.refl (F : Identity → Prop) (k : Seat) (s : Ledger Seat) : Confined F k s s :=
  .of_rows rfl rfl (fun _ _ => rfl) fun _ _ _ h => h

theorem Orderly.of_rows (h : Orderly registry s) (hclock : t.clock = s.clock)
    (hrows : t.table.rows = s.table.rows) : Orderly registry t where
  exclusive := by rw [hclock, hrows]; exact h.exclusive
  registered := by rw [hrows]; exact h.registered

/-- What an open transaction knows since `now`: in what it sees, its works have no two
holders and those in `W` none but `token`; of other works it keeps no lease that is not
committed. -/
structure Holding (registry : Registry) (F W : Identity → Prop) (token : Uuid) (k : Seat)
    (now : Time) (s : Ledger Seat) : Prop where
  now_le : now ≤ s.clock
  exclusive : ExclusiveOn F now (leases (s.view k))
  granted : ∀ a ∈ leases (s.view k), W a.work → now < a.expires → a.token = some token
  kept : ∀ a ∈ leases (s.table.pending k), ¬F a.work → a ∈ leases s.table.rows
  locked : ∀ row ∈ s.table.pending k, s.table.lock row.file = some k
  registered : ∀ row ∈ s.table.pending k, Registered registry row

section Holding

/-- A lease of the transaction's works that it sees after a step of the others it has seen
before. -/
theorem Undisturbed.leases_view (h : Undisturbed F k s t) (ha : a ∈ leases (t.view k))
    (hF : F a.work) : a ∈ leases (s.view k) := by
  obtain ⟨row, hrow, hlease⟩ := mem_leases.mp ha
  rcases mem_view.mp hrow with hown | ⟨hcommitted, hnew⟩
  · rw [h.pending] at hown
    exact mem_leases.mpr ⟨row, mem_view.mpr (.inl hown), hlease⟩
  have hbefore := h.shrinks a (mem_leases.mpr ⟨row, hcommitted, hlease⟩) hF
  obtain ⟨old, hold, hlease'⟩ := mem_leases.mp hbefore
  -- the lease names its row, so it was the same row
  have hfile : old.file = row.file := (lease_file hlease').trans (lease_file hlease).symm
  refine mem_leases.mpr ⟨old, mem_view.mpr (.inr ⟨hold, fun o ho => ?_⟩), hlease'⟩
  rw [hfile]
  exact hnew o (h.pending ▸ ho)

/-- What a transaction knows survives the steps of the others. -/
theorem Holding.stable (h : Holding registry F W token k now s) (hW : ∀ w, W w → F w)
    (hrely : Undisturbed F k s t) : Holding registry F W token k now t where
  now_le := h.now_le.trans hrely.clock
  exclusive := h.exclusive.of_subset fun _ ha hF => hrely.leases_view ha hF
  granted a ha hw := h.granted a (hrely.leases_view ha (hW _ hw)) hw
  kept a ha hF := by
    rw [hrely.pending] at ha
    obtain ⟨own, hown, hlease⟩ := mem_leases.mp ha
    obtain ⟨row, hrow, hlease'⟩ := mem_leases.mp (h.kept a ha hF)
    have hfile : row.file = own.file := (lease_file hlease').trans (lease_file hlease).symm
    have hlocked : s.table.lock row.file = some k := hfile ▸ h.locked own hown
    exact mem_leases.mpr ⟨row, (hrely.locked row hlocked).mpr hrow, hlease'⟩
  locked row hrow := by
    rw [hrely.pending] at hrow
    exact hrely.lock _ (h.locked row hrow)
  registered row hrow := by
    rw [hrely.pending] at hrow
    exact h.registered row hrow

theorem Holding.registered_view (h : Holding registry F W token k now s) (hinv : Orderly registry s)
    (hrow : row ∈ s.view k) : Registered registry row := by
  rcases mem_view.mp hrow with hown | ⟨hcommitted, -⟩
  · exact h.registered row hown
  · exact hinv.registered row hcommitted

/-- The transaction begins. -/
theorem Orderly.holding (hinv : Orderly registry s) (hclosed : s.table.pending k = []) :
    Holding registry F (fun _ => False) token k s.clock s where
  now_le := le_rfl
  exclusive := by
    rw [Ledger.view, Table.view_of_closed hclosed]
    exact hinv.exclusive.on
  granted _ _ hw := hw.elim
  kept a ha := by
    rw [hclosed] at ha
    cases ha
  locked row hrow := by
    rw [hclosed] at hrow
    cases hrow
  registered row hrow := by
    rw [hclosed] at hrow
    cases hrow

/-- The transaction reads the clock again. -/
theorem Holding.renow (h : Holding registry F W token k now s) (token' : Uuid) :
    Holding registry F (fun _ => False) token' k s.clock s :=
  { h with
    now_le := le_rfl
    exclusive := h.exclusive.later h.now_le
    granted := fun _ _ hw => hw.elim }

/-- The transaction finds that some works have no holder. -/
theorem Holding.found (h : Holding registry F G token k now s)
    (hunheld : ∀ a ∈ leases (s.view k), W a.work → ¬now < a.expires) (token' : Uuid) :
    Holding registry F W token' k now s :=
  { h with granted := fun a ha hw hlt => absurd hlt (hunheld a ha hw) }

/-- After a write the transaction sees the new version's lease, and those it has seen. -/
theorem leases_write (ha : a ∈ leases ((s.write k new).view k)) :
    new.lease = some a ∨ a ∈ leases (s.view k) := by
  obtain ⟨row, hrow, hlease⟩ := mem_leases.mp ha
  rcases Table.mem_view_write.mp hrow with rfl | ⟨hold, -⟩
  · exact .inl hlease
  · exact .inr (mem_leases.mpr ⟨row, hold, hlease⟩)

section

variable (h : Holding registry F W token k now s)
include h

/-- A lease of another work that the transaction sees is committed. -/
theorem Holding.kept_view (ha : a ∈ leases (s.view k)) (hF : ¬F a.work) :
    a ∈ leases s.table.rows := by
  obtain ⟨row, hrow, hlease⟩ := mem_leases.mp ha
  rcases mem_view.mp hrow with hown | ⟨hcommitted, -⟩
  · exact h.kept a (mem_leases.mpr ⟨row, hown, hlease⟩) hF
  · exact mem_leases.mpr ⟨row, hcommitted, hlease⟩

/-- The transaction holds the lock of what it writes. -/
theorem Holding.locked_write (hrow : row ∈ (s.write k new).table.pending k) :
    (s.write k new).table.lock row.file = some k := by
  rcases Table.mem_write_pending.mp hrow with rfl | ⟨hold, -⟩
  · simp [Ledger.write, Table.write, Table.lockRow]
  · exact Table.lockRow_mine (h.locked row hold) _

theorem Holding.registered_write (hnew : Registered registry new)
    (hrow : row ∈ (s.write k new).table.pending k) :
    Registered registry row := by
  rcases Table.mem_write_pending.mp hrow with rfl | ⟨hold, -⟩
  · exact hnew
  · exact h.registered row hold

/-- A row that is written with no lease but one the transaction has seen. -/
theorem Holding.write_seen (hnew : Registered registry new)
    (hlease : ∀ a, new.lease = some a → a ∈ leases (s.view k)) :
    Holding registry F W token k now (s.write k new) := by
  have hseen : ∀ a ∈ leases ((s.write k new).view k), a ∈ leases (s.view k) := fun a ha =>
    (leases_write ha).elim (hlease a) id
  refine ⟨h.now_le, h.exclusive.of_subset fun a ha _ => hseen a ha,
    fun a ha => h.granted a (hseen a ha), fun a ha hF => ?_,
    fun _ => h.locked_write, fun _ => h.registered_write hnew⟩
  obtain ⟨row, hrow, hlease⟩ := mem_leases.mp ha
  exact h.kept_view (hseen a (mem_leases.mpr ⟨row, mem_view.mpr (.inl hrow), hlease⟩)) hF

section

variable (hW : ∀ w, W w → F w) (hrow : row ∈ s.view k) (hfits : Fits F W token now row new)
include hW hrow hfits

/-- A new lease is for one of the transaction's works, and for its only holder. -/
theorem Holding.holder (ha : new.lease = some a) (hunseen : a ∉ leases (s.view k)) :
    F a.work ∧ (∀ b ∈ leases (s.view k), b.work = a.work → now < b.expires → b.token = a.token) ∧
      (W a.work → a.token = some token) := by
  rcases hfits.lease a ha with hkept | ⟨hF, b, hb, hwork, htoken, hlt⟩ | ⟨hw, htoken, -⟩
  · exact absurd (mem_leases.mpr ⟨row, hrow, hkept⟩) hunseen
  · have hseen : b ∈ leases (s.view k) := mem_leases.mpr ⟨row, hrow, hb⟩
    refine ⟨hF, fun c hc hcwork hltc => ?_, fun hw => ?_⟩
    · rw [← htoken]
      exact h.exclusive c hc b hseen (hcwork ▸ hF) (hcwork.trans hwork.symm) hltc hlt
    · rw [← htoken]
      exact h.granted b hseen (hwork ▸ hw) hlt
  · refine ⟨hW _ hw, fun c hc hcwork hltc => ?_, fun _ => htoken⟩
    rw [htoken]
    exact h.granted c hc (hcwork ▸ hw) hltc

/-- The write of an UPDATE. -/
theorem Holding.write (hinv : Orderly registry s) :
    Holding registry F W token k now (s.write k new) := by
  have hregistered := hfits.registered (h.registered_view hinv hrow)
  by_cases hlease : ∀ a, new.lease = some a → a ∈ leases (s.view k)
  · exact h.write_seen hregistered hlease
  push Not at hlease
  obtain ⟨a, ha, hunseen⟩ := hlease
  obtain ⟨hF, hholder, hgranted⟩ := h.holder hW hrow hfits ha hunseen
  have hseen : ∀ c ∈ leases ((s.write k new).view k), c = a ∨ c ∈ leases (s.view k) := by
    intro c hc
    rcases leases_write hc with hnew | hold
    · rw [ha] at hnew
      exact .inl (Option.some.inj hnew).symm
    · exact .inr hold
  refine ⟨h.now_le, h.exclusive.grant hholder hseen, fun c hc hw hlt => ?_, fun c hc hout => ?_,
    fun _ => h.locked_write, fun _ => h.registered_write hregistered⟩
  · rcases hseen c hc with rfl | hold
    · exact hgranted hw
    · exact h.granted c hold hw hlt
  · obtain ⟨r, hr, hlease⟩ := mem_leases.mp hc
    rcases hseen c (mem_leases.mpr ⟨r, mem_view.mpr (.inl hr), hlease⟩) with rfl | hold
    · exact absurd hF hout
    · exact h.kept_view hold hout

end

end

end Holding

section Statements

/-- A write takes no lock from another transaction. -/
theorem confined_write (hfree : ¬s.table.Blocked k new.file) : Confined F k s (s.write k new) :=
  .of_rows rfl rfl (fun _ hne => Table.write_pending_other hne)
    fun _ hne _ h => Table.lockRow_other hfree hne h

variable {set : Artifact → Artifact} {qual : Ledger Seat → Artifact → Bool}

theorem keeps_updateRow (h : Holding registry F W token k now s) (hW : ∀ w, W w → F w)
    {qual : Artifact → Bool} (hset : ∀ row, qual row = true → Fits F W token now row (set row))
    (file : File) :
    Keeps (ledgerContract registry F k) (updateRow k qual set file)
      (fun _ t => Holding registry F W token k now t) s := by
  intro t hrely hinv _ b u hstep
  have ht := h.stable hW hrely
  dsimp only at hstep
  split at hstep
  · cases hstep
  rename_i hfree
  split at hstep
  · cases hstep
    exact ⟨hinv, Confined.refl F k t, ht⟩
  rename_i row hcurrent
  split at hstep
  next hqual =>
    cases hstep
    obtain ⟨hview, rfl⟩ := current_mem hcurrent
    have hfits := hset row hqual
    have hfree' : ¬t.table.Blocked k (set row).file := hfits.file ▸ hfree
    exact ⟨hinv.of_rows rfl rfl, confined_write hfree', ht.write hW hview hfits hinv⟩
  · cases hstep
    exact ⟨hinv, Confined.refl F k t, ht⟩

theorem keeps_updateRows (h : Holding registry F W token k now s) (hW : ∀ w, W w → F w)
    (hset : ∀ snapshot row, qual snapshot row = true → Fits F W token now row (set row)) :
    Keeps (ledgerContract registry F k) (updateRows k qual set)
      (fun _ t => Holding registry F W token k now t) s := by
  refine keeps_bind.mpr (keeps_look.mpr fun t hrely hinv _ => ⟨hinv, Confined.refl F k t, ?_⟩)
  refine (keeps_each (I := Holding registry F W token k now)
    (fun file _ u hu => keeps_updateRow hu hW (hset t) file) (h.stable hW hrely)).bind ?_
  exact fun _ u hu => hu

variable (registry F k s) in
/-- What a transaction knows between two of its calls. -/
def Standing : Prop :=
  Holding registry F (fun _ => False) 0 k s.clock s

variable (registry F k s) in
/-- A program that a transaction can run between two of its calls. -/
abbrev Stands {α : Type} (program : Program Unit (Ledger Seat) α) : Prop :=
  Keeps (ledgerContract registry F k) program (fun _ t => Standing registry F k t) s

theorem Holding.standing (h : Holding registry F W token k now s) : Standing registry F k s :=
  h.renow 0

section

variable (h : Standing registry F k s)
include h

theorem Standing.stable (hrely : Undisturbed F k s t) : Standing registry F k t :=
  (Holding.stable h (fun _ hw => hw.elim) hrely).standing

/-- A statement that takes leases away. -/
theorem keeps_marking (hset : ∀ row, ∃ state, set row = row.marked state) :
    Stands registry F k s (updateRows k qual set) := by
  refine (keeps_updateRows h (fun _ hw => hw.elim) fun _ row _ => ?_).mono fun _ t ht => ht.standing
  obtain ⟨state, hstate⟩ := hset row
  rw [hstate]
  exact fits_marked F _ 0 s.clock row state

/-- A look at the ledger. -/
theorem keeps_reading {β γ : Type} {f : Ledger Seat → β} {next : β → Program Unit (Ledger Seat) γ}
    {post : γ → Ledger Seat → Prop} (hnext : ∀ t, Orderly registry t → Standing registry F k t →
      Keeps (ledgerContract registry F k) (next (f t)) post t) :
    Keeps (ledgerContract registry F k) (Program.look f >>= next) post s :=
  keeps_bind.mpr (keeps_look.mpr fun t hrely hinv _ =>
    ⟨hinv, Confined.refl F k t, hnext t hinv (h.stable hrely)⟩)

theorem keeps_markWork (download : Uuid) (workId : Text) (state : ArtifactState) :
    Stands registry F k s (markWork k download workId state) :=
  keeps_marking h fun _ => ⟨state, rfl⟩

theorem keeps_markWorks (args : MarkArgs) :
    Stands registry F k s (markWorks k args) := by
  refine (keeps_each (I := Standing registry F k)
    (fun workIds _ t ht => ?_) h).bind fun _ u hu => hu
  exact keeps_reading ht fun u _ hu => keeps_marking hu fun _ => ⟨args.state, rfl⟩

theorem keeps_markWorkResults (args : ResultArgs) :
    Stands registry F k s (markWorkResults k args) := by
  refine (keeps_each (I := Standing registry F k)
    (fun batch _ t ht => ?_) h).bind fun _ u hu => hu
  exact keeps_marking ht fun row => ⟨(batch.lookup row.sourceWorkId).getD row.state, rfl⟩

theorem keeps_releaseOwnedLeases (job token : Uuid) :
    Stands registry F k s (releaseOwnedLeases k job token) :=
  (keeps_marking h fun _ => ⟨.new, rfl⟩).bind fun _ _ ht => ht

theorem keeps_resetRetryAssignment (download job : Uuid) (now : Option Time) :
    Stands registry F k s (resetRetryAssignment k download job now) :=
  keeps_reading h fun _ _ ht =>
    (keeps_marking ht fun _ => ⟨.new, rfl⟩).bind fun _ _ hu => hu

end

/-- A renewal finds the lease it renews, and the holder with it. -/
theorem fits_renewed {args : RenewArgs} (hF : ∀ w : Identity, w.2 ∈ args.sourceWorkIds → F w)
    (hworkId : row.sourceWorkId ∈ args.sourceWorkIds) (htype : row.artifactType = .metadataJson)
    (hstate : row.state = .importing) {expires : Time}
    (hexpires : row.leaseExpiresAt = some expires) (hlt : now < expires) :
    Fits F W token now row { row with leaseExpiresAt := some (now + args.leaseSeconds) } where
  file := rfl
  work := rfl
  type := rfl
  lease a ha := by
    obtain ⟨-, -, -, -, hwork, htoken⟩ := lease_eq_some.mp ha
    have hb : row.lease = some ⟨row.file, row.work, row.leaseToken, expires⟩ :=
      lease_eq_some.mpr ⟨htype, hstate, hexpires, rfl, rfl, rfl⟩
    exact .inr (.inl ⟨hF _ (hwork ▸ hworkId), _, hb, hwork, htoken, hlt⟩)

theorem keeps_renewWorkLeases (h : Standing registry F k s) (args : RenewArgs)
    (hF : ∀ w : Identity, w.2 ∈ args.sourceWorkIds → F w) :
    Stands registry F k s (renewWorkLeases k args) := by
  unfold renewWorkLeases
  split
  · exact h
  refine keeps_reading h fun t _ ht => ?_
  refine (keeps_updateRows ht (fun _ hw => hw.elim) fun _ row hqual => ?_).bind
    fun _ u hu => hu.standing
  simp only [Bool.and_eq_true, beq_iff_eq, contains_iff_mem, Option.any_eq_true,
    decide_eq_true_eq] at hqual
  obtain ⟨⟨⟨⟨⟨⟨⟨-, hworkId⟩, htype⟩, hstate⟩, -⟩, -⟩, -⟩, expires, hexpires, hlt⟩ := hqual
  exact fits_renewed hF hworkId htype hstate hexpires hlt

/-- A row that an upsert writes stays with the registered work of its file. -/
theorem keeps_upsertRow (h : Standing registry F k s) {new : NewArtifact}
    (hnew : registry new.inserted.file = (new.inserted.work, new.artifactType)) :
    Stands registry F k s (upsertRow k new) := by
  intro t hrely hinv _ b u hstep
  have ht := h.stable hrely
  dsimp only at hstep
  split at hstep
  · cases hstep
  rename_i hfree
  split at hstep
  next row hcurrent =>
    cases hstep
    obtain ⟨hview, hfile⟩ := current_mem hcurrent
    have hrow := Holding.registered_view ht hinv hview
    obtain ⟨hwork, htype⟩ := Prod.mk.inj ((hfile ▸ hnew).symm.trans hrow.described)
    have hlease : ∀ a, (row.refreshed new).lease = some a → row.lease = some a :=
      fun a => lease_refreshed hwork htype
    have hrefreshed : Registered registry (row.refreshed new) :=
      ⟨hfile ▸ hnew, fun a ha => hrow.leased a (hlease a ha)⟩
    have hfree' : ¬t.table.Blocked k (row.refreshed new).file := by
      rw [file_refreshed, hfile]
      exact hfree
    refine ⟨hinv.of_rows rfl rfl, confined_write hfree', Holding.write_seen ht hrefreshed ?_⟩
    exact fun a ha => mem_leases.mpr ⟨row, hview, hlease a ha⟩
  · cases hstep
    have hbare : ∀ a, new.inserted.lease ≠ some a := by
      simp [lease_inserted]
    refine ⟨hinv.of_rows rfl rfl, confined_write hfree, Holding.write_seen ht
      ⟨hnew, fun a ha => absurd ha (hbare a)⟩ fun a ha => absurd ha (hbare a)⟩

theorem keeps_upsertMany (h : Standing registry F k s) {rows : List NewArtifact}
    (hrows : ∀ new ∈ rows, registry new.inserted.file = (new.inserted.work, new.artifactType))
    (chunkSize : Nat) :
    Stands registry F k s (upsertMany k rows chunkSize) := by
  have hmem : ∀ batch ∈ chunked chunkSize (rows.filter (·.artifactType != .unknown)),
      ∀ new ∈ batch, new ∈ rows := by
    intro batch hbatch new hnew
    obtain ⟨i, -, rfl⟩ := mem_map.mp hbatch
    exact mem_of_mem_filter (mem_of_mem_drop (mem_of_mem_take hnew))
  refine (keeps_each (I := Standing registry F k)
    (fun batch hbatch t ht => ?_) h).bind fun _ u hu => hu
  exact keeps_each (fun new hnew u hu => keeps_upsertRow hu
    (hrows new (hmem batch hbatch new hnew))) ht

end Statements

section Claims

variable {args : ClaimArgs} {source : Text}

/-- The works that a claim may lease. -/
def ClaimArgs.Covers (args : ClaimArgs) (work : Identity) : Prop :=
  args.source = some work.1 ∧ ∀ ids ∈ args.sourceWorkIds, work.2 ∈ ids

theorem mem_representatives (h : row ∈ representatives rows) : row ∈ rows := by
  rw [representatives, (Keyset.arranged_perm _ _).mem_iff] at h
  exact mem_of_mem_filter h

/-- A row that a claim may start from is of a work it names. -/
theorem claimable_covers {limit : Nat} (hsource : args.source = some source)
    (h : claimable k args (args.sourceWorkIds.map fun ids => ids.eraseDups.take limit) now s row =
      true) : row.source = source ∧ args.Covers row.work := by
  simp only [claimable, identityScope, hsource, Bool.and_eq_true, Option.elim_some, beq_iff_eq] at h
  obtain ⟨⟨⟨⟨⟨⟨-, hrow, hcandidates⟩, -⟩, -⟩, -⟩, -⟩, -⟩ := h
  refine ⟨hrow, hsource.trans (congrArg some hrow.symm), fun ids hids => ?_⟩
  rw [Option.mem_def.mp hids, Option.map_some, Option.all_some, contains_iff_mem] at hcandidates
  exact mem_eraseDups.mp (mem_of_mem_take hcandidates)

/-- The work of a row that a claim may start from has no holder in the snapshot. -/
theorem claimable_unheld {candidates : Option (List Text)}
    (hregistered : ∀ row ∈ s.view k, Registered registry row)
    (h : claimable k args candidates now s row = true) (ha : a ∈ leases (s.view k))
    (hwork : a.work = row.work) : ¬now < a.expires := by
  intro hlt
  obtain ⟨other, hother, hlease⟩ := mem_leases.mp ha
  obtain ⟨htype, hstate, hexpires, -, hwork', -⟩ := lease_eq_some.mp hlease
  obtain ⟨hsource, hworkId⟩ := Prod.mk.inj (hwork'.trans hwork)
  have hroot := (hregistered other hother).leased a hlease
  simp only [claimable, Bool.and_eq_true, Bool.not_eq_true', any_eq_false] at h
  obtain ⟨⟨-, hnone⟩, -⟩ := h
  exact hnone other hother (by
    simp [hroot, hsource, hworkId, htype, activeLease, hstate, hexpires, hlt])

/-- The rows that a claim locks are still of the works it has found. -/
theorem keeps_lockRows (hW : ∀ w, W w → F w) {ranked : List Artifact}
    (hranked : ∀ row ∈ ranked, registry row.file = (row.work, row.artifactType) ∧
      row.source = source ∧ W row.work) (limit : Nat)
    (h : Holding registry F W args.leaseToken k now s) :
    Keeps (ledgerContract registry F k) (lockRows k limit ranked)
      (fun workIds t => Holding registry F W args.leaseToken k now t ∧
        ∀ workId ∈ workIds, W (source, workId)) s := by
  induction ranked generalizing limit s with
  | nil => exact ⟨h, nofun⟩
  | cons row rest ih =>
    cases limit with
    | zero => exact ⟨h, nofun⟩
    | succ limit =>
      obtain ⟨hfirst, hrest⟩ := forall_mem_cons.mp hranked
      intro t hrely hinv _ locked u hstep
      have ht := h.stable hW hrely
      dsimp only at hstep
      split at hstep
      · cases hstep
        exact ⟨hinv, Confined.refl F k t, ih hrest (limit + 1) ht⟩
      rename_i hfree
      cases hstep
      have hlocked : Holding registry F W args.leaseToken k now
          { t with table := t.table.lockRow k row.file } :=
        { ht with locked := fun own hown => Table.lockRow_mine (ht.locked own hown) _ }
      refine ⟨hinv.of_rows rfl rfl, .of_rows rfl rfl (fun _ _ => rfl)
        fun _ hne _ => Table.lockRow_other hfree hne, ?_⟩
      cases hcurrent : t.table.current Artifact.file k row.file with
      | none => exact ih hrest (limit + 1) hlocked
      | some newest =>
        obtain ⟨hview, hfile⟩ := current_mem hcurrent
        have hnewest := (ht.registered_view hinv hview).described
        rw [hfile, hfirst.1] at hnewest
        have hwork : row.work = newest.work := (Prod.mk.inj hnewest).1
        change Keeps _ (lockRows k limit rest >>= fun others =>
          .done (newest.sourceWorkId :: others)) _ _
        refine (ih hrest limit hlocked).bind fun workIds u hu => ?_
        refine ⟨hu.1, forall_mem_cons.mpr ⟨?_, hu.2⟩⟩
        have hsame : (source, newest.sourceWorkId) = row.work := by
          rw [← hfirst.2.1, hwork]
          exact congrArg (·, newest.sourceWorkId) (Prod.mk.inj hwork).1
        rw [hsame]
        exact hfirst.2.2

/-- The lease of a claimed work. -/
theorem fits_leased (hroot : row.storageRoot = .downloads) (hwork : W row.work) :
    Fits F W args.leaseToken now row { row with
      state := .importing
      importJobId := some args.importJobId
      leaseToken := some args.leaseToken
      leaseExpiresAt := some (now + args.leaseSeconds) } where
  file := rfl
  work := rfl
  type := rfl
  lease a ha := by
    obtain ⟨-, -, -, -, hwork', htoken⟩ := lease_eq_some.mp ha
    exact .inr (.inr ⟨hwork' ▸ hwork, htoken.symm, hroot⟩)

theorem keeps_leaseClaimed (hsource : args.source = some source) (hW : ∀ w, W w → F w)
    {claimed : List Text} (hclaimed : ∀ workId ∈ claimed, W (source, workId))
    (h : Holding registry F W args.leaseToken k now s) :
    Stands registry F k s (leaseClaimed k args now claimed) := by
  unfold leaseClaimed
  split
  · exact h.standing
  refine (keeps_updateRows h hW fun _ row hqual => ?_).mono fun _ t ht => ht.standing
  simp only [hsource, Option.elim_some, Bool.and_eq_true, beq_iff_eq, contains_iff_mem] at hqual
  obtain ⟨⟨⟨hroot, hrow⟩, hworkId⟩, -⟩ := hqual
  exact fits_leased hroot (show W (row.source, row.sourceWorkId) from hrow ▸ hclaimed _ hworkId)

theorem keeps_settleExisting (h : Standing registry F k s) (contended : List Text) :
    Stands registry F k s (settleExisting k args contended) := by
  unfold settleExisting
  split
  · exact h
  split
  · exact h
  refine keeps_reading h fun t _ ht => ?_
  split
  · exact ht
  · exact (keeps_markWorks ht _).bind fun _ _ hu => hu

theorem keeps_claimWorkBatch (h : Standing registry F k s) (hsource : args.source = some source)
    (hF : ∀ w, args.Covers w → F w) :
    Stands registry F k s (claimWorkBatch k args) := by
  refine keeps_reading h fun t _ ht => ?_
  dsimp only
  split
  · exact ht
  refine keeps_bind.mpr (keeps_look.mpr fun u hrely hinv _ => ⟨hinv, Confined.refl F k u, ?_⟩)
  have hu := Holding.stable ht (fun _ hw => hw.elim) hrely
  have hregistered : ∀ row ∈ u.view k, Registered registry row :=
    fun row => hu.registered_view hinv
  set candidates := args.sourceWorkIds.map fun ids =>
    ids.eraseDups.take (max 1 (min args.limit 25)).toNat with hcandidates
  set found := (u.view k).filter (claimable k args candidates t.clock u) with hfound
  -- the works of the rows found have no holder, and nobody but this claim gives them one
  let W : Identity → Prop := fun w => ∃ row ∈ found, row.work = w
  have hclaimable : ∀ row ∈ found, claimable k args candidates t.clock u row = true :=
    fun row hrow => (mem_filter.mp hrow).2
  have hW : ∀ w, W w → F w := by
    rintro w ⟨row, hrow, rfl⟩
    exact hF _ (claimable_covers hsource (hclaimable row hrow)).2
  have hunheld : ∀ a ∈ leases (u.view k), W a.work → ¬t.clock < a.expires := by
    rintro a ha ⟨row, hrow, hwork⟩
    exact claimable_unheld hregistered (hclaimable row hrow) ha hwork.symm
  have hranked : ∀ row ∈ representatives found, registry row.file = (row.work, row.artifactType) ∧
      row.source = source ∧ W row.work := by
    intro row hrow
    have hmem := mem_representatives hrow
    exact ⟨(hregistered row (mem_of_mem_filter hmem)).described,
      (claimable_covers hsource (hclaimable row hmem)).1, row, hmem, rfl⟩
  refine (keeps_lockRows hW hranked _ (hu.found hunheld args.leaseToken)).bind ?_
  rintro locked v ⟨hv, hlocked⟩
  have hclaimed : ∀ workId ∈ locked.eraseDups, W (source, workId) :=
    fun workId hmem => hlocked workId (mem_eraseDups.mp hmem)
  refine (keeps_leaseClaimed hsource hW hclaimed hv).bind fun _ w hw => ?_
  exact (keeps_settleExisting hw _).bind fun _ _ hx => hx

end Claims

/-- The works that a call may lease. -/
def Call.Covers : Call → Identity → Prop
  | .claimWorkBatch args, work => args.Covers work
  | .renewWorkLeases args, work => work.2 ∈ args.sourceWorkIds
  | _, _ => False

/-- A claim names its source, and an upsert registers each file under its work. -/
def Call.Regular (registry : Registry) : Call → Prop
  | .claimWorkBatch args => args.source.isSome
  | .upsertMany rows _ =>
    ∀ new ∈ rows, registry new.inserted.file = (new.inserted.work, new.artifactType)
  | _ => True

/-- The works that a transaction may lease. -/
def Seat.Covers (k : Seat) (work : Identity) : Prop :=
  ∃ call ∈ k.2, call.Covers work

/-- A transaction starts while no other one that is running leases one of its works. -/
def startsApart (registry : Registry) (sessions : Sessions) (k : Seat)
    (p : Program Unit (Ledger Seat) Unit) : Prop :=
  starts sessions k p ∧ (∀ call ∈ k.2, call.Regular registry) ∧
    ∀ l, l ≠ k → sessions.seat l ≠ none → ∀ work, ¬(Seat.Covers k work ∧ Seat.Covers l work)

section Transactions

theorem keeps_run (h : Standing registry F k s) {call : Call} (hregular : call.Regular registry)
    (hF : ∀ w, call.Covers w → F w) :
    Stands registry F k s (run k call) := by
  cases call with
  | claimWorkBatch args =>
    obtain ⟨source, hsource⟩ := Option.isSome_iff_exists.mp hregular
    exact (keeps_claimWorkBatch h hsource hF).bind fun _ _ ht => ht
  | renewWorkLeases args =>
    exact (keeps_renewWorkLeases h args hF).bind fun _ _ ht => ht
  | markWork download workId state =>
    exact (keeps_markWork h download workId state).bind fun _ _ ht => ht
  | markWorks args =>
    exact (keeps_markWorks h args).bind fun _ _ ht => ht
  | markWorkResults args =>
    exact (keeps_markWorkResults h args).bind fun _ _ ht => ht
  | releaseOwnedLeases job token =>
    exact (keeps_releaseOwnedLeases h job token).bind fun _ _ ht => ht
  | resetRetryAssignment download job now =>
    exact (keeps_resetRetryAssignment h download job now).bind fun _ _ ht => ht
  | upsertMany rows chunkSize =>
    exact (keeps_upsertMany h hregular chunkSize).bind fun _ _ ht => ht

/-- What a transaction publishes keeps the leases exclusive. -/
theorem Standing.commit (h : Standing registry F k s) (hinv : Orderly registry s) :
    Orderly registry { s with table := s.table.commit Artifact.file k } ∧
      Confined F k s { s with table := s.table.commit Artifact.file k } := by
  have hout : ∀ a ∈ leases (s.view k), ¬F a.work → a ∈ leases s.table.rows :=
    fun a => Holding.kept_view h
  refine ⟨⟨.of_on (Holding.exclusive h) (hinv.exclusive.on.of_subset hout),
    fun row => Holding.registered_view h hinv⟩, rfl, fun l hne => ?_, fun l hne file hlock => ?_,
    fun l hne row hlock => ?_, hout⟩
  · simp [Table.commit, hne]
  · exact Table.unlock_other hne hlock
  -- the rows of the others' locks are not among the ones it publishes
  have hforeign : ∀ own ∈ s.table.pending k, own.file ≠ row.file := by
    intro own hown hfile
    have hmine := Holding.locked h own hown
    rw [hfile, hlock] at hmine
    exact hne (Option.some.inj hmine)
  refine ⟨fun hrow => ?_, fun hrow => mem_view.mpr (.inr ⟨hrow, hforeign⟩)⟩
  rcases mem_view.mp hrow with hown | ⟨hcommitted, -⟩
  · exact absurd rfl (hforeign row hown)
  · exact hcommitted

theorem keeps_transaction (hinv : Orderly registry s) (hclosed : s.table.pending k = [])
    {calls : List Call} (hregular : ∀ call ∈ calls, call.Regular registry)
    (hF : ∀ call ∈ calls, ∀ w, call.Covers w → F w) :
    Keeps (ledgerContract registry F k) (transaction k calls) (fun _ _ => True) s := by
  have hbegin : Standing registry F k s := hinv.holding hclosed
  refine (keeps_each (I := Standing registry F k) (fun call hcall t ht =>
    keeps_run ht (hregular call hcall) (hF call hcall)) hbegin).bind fun _ t ht => ?_
  intro u hrely hinv _ b v hstep
  cases hstep
  obtain ⟨hdone, hconfined⟩ := (ht.stable hrely).commit hinv
  exact ⟨hdone, hconfined, trivial⟩

theorem keeps_rollback :
    Keeps (ledgerContract registry F k) (rollback k) (fun _ _ => True) s := by
  intro t hrely hinv _ b u hstep
  cases hstep
  refine ⟨hinv.of_rows rfl rfl, .of_rows rfl rfl (fun l hne => ?_) (fun l hne file hlock => ?_),
    trivial⟩
  · simp [Table.rollback, hne]
  · exact Table.unlock_other hne hlock

theorem sessions_sound (registry : Registry) :
    Sound (startsApart registry) surroundings (Orderly registry)
      (fun k => ledgerContract registry (Seat.Covers k) k)
      (fun k l => l ≠ k ∧ ∀ work, ¬(Seat.Covers k work ∧ Seat.Covers l work)) where
  inv_eq _ := rfl
  surroundings_keeps s t hinv := by
    rintro ⟨hclock, htable⟩
    refine ⟨⟨?_, htable ▸ hinv.registered⟩, fun k => ⟨hclock, by rw [htable], ?_, ?_, ?_⟩⟩
    · rw [htable]
      exact hinv.exclusive.later hclock
    · rw [htable]
      exact fun _ h => h
    · rw [htable]
      exact fun _ _ => Iff.rfl
    · rw [htable]
      exact fun _ h _ => h
  guarantee_rely k l hbeside s t _ hguar :=
    Confined.undisturbed hguar hbeside.1 fun work hl hk => hbeside.2 work ⟨hk, hl⟩
  enter_keeps sessions k p hinv henter := by
    obtain ⟨hstarts, hregular, hapart⟩ := henter
    refine ⟨?_, fun l hne hrunning => ⟨⟨hne, hapart l hne hrunning⟩, hne.symm, fun work hboth =>
      hapart l hne hrunning work hboth.symm⟩⟩
    rcases hstarts with ⟨rfl, hclosed, -⟩ | rfl
    · exact keeps_transaction hinv hclosed hregular fun call hcall w hw => ⟨call, hcall, hw⟩
    · exact keeps_rollback

end Transactions

/-! ### The rows of an execution -/

/-- The transaction changes no row but those leased to the token for the job. -/
structure OnlyLeased (k : Seat) (job token : Uuid) (s t : Ledger Seat) : Prop where
  rows : t.table.rows = s.table.rows
  pending : ∀ l, l ≠ k → t.table.pending l = s.table.pending l
  current : ∀ file, t.table.current Artifact.file k file ≠ s.table.current Artifact.file k file →
    ∃ row, s.table.current Artifact.file k file = some row ∧ row.leaseToken = some token ∧
      row.importJobId = some job

/-- The contract of an execution that relies on nothing. -/
def executionContract (k : Seat) (job token : Uuid) : Contract (Ledger Seat) where
  inv _ := True
  rely _ _ := True
  guarantee := OnlyLeased k job token
  rely_refl _ := trivial
  rely_trans _ _ _ _ _ := trivial

section Executions

variable {job : Uuid}

theorem OnlyLeased.refl (s : Ledger Seat) : OnlyLeased k job token s s :=
  ⟨rfl, fun _ _ => rfl, fun _ h => absurd rfl h⟩

/-- The condition is checked on the version that is written over. -/
theorem updateRow_onlyLeased {qual : Artifact → Bool} {set : Artifact → Artifact}
    (hqual : ∀ row, qual row = true → row.leaseToken = some token ∧ row.importJobId = some job)
    (hset : ∀ row, (set row).file = row.file) (file : File) (s : Ledger Seat) :
    Keeps (executionContract k job token) (updateRow k qual set file) (fun _ _ => True) s := by
  intro t _ _ _ b u hstep
  refine ⟨trivial, ?_, trivial⟩
  dsimp only at hstep
  split at hstep
  · cases hstep
  split at hstep
  · cases hstep
    exact OnlyLeased.refl t
  rename_i row hcurrent
  split at hstep
  next hrow =>
    cases hstep
    refine ⟨rfl, fun l hne => Table.write_pending_other hne, fun other hother => ?_⟩
    by_cases hsame : other = (set row).file
    · rw [hsame, hset, (current_mem hcurrent).2]
      exact ⟨row, hcurrent, hqual row hrow⟩
    · exact absurd (Table.current_write_other hsame) hother
  · cases hstep
    exact OnlyLeased.refl t

theorem markWorkResults_onlyLeased {args : ResultArgs} (hjob : args.expectedImportJobId = some job)
    (htoken : args.expectedLeaseToken = some token) (s : Ledger Seat) :
    Keeps (executionContract k job token) (markWorkResults k args) (fun _ _ => True) s := by
  refine (keeps_each (I := fun _ => True) (fun batch _ t _ => ?_) trivial).bind
    fun _ _ _ => trivial
  refine keeps_bind.mpr (keeps_look.mpr fun u _ _ _ => ⟨trivial, OnlyLeased.refl u, ?_⟩)
  refine (keeps_each (I := fun _ => True) (fun file _ v _ => ?_) trivial).bind
    fun _ _ _ => trivial
  refine updateRow_onlyLeased (fun row hrow => ?_) ?_ file v
  case refine_2 => exact fun _ => rfl
  simp only [ownedBy, hjob, htoken, Option.all_some, Bool.and_eq_true, beq_iff_eq] at hrow
  obtain ⟨-, howner, hleased, -⟩ := hrow
  exact ⟨hleased, howner⟩

end Executions

/-! ### Results -/

/-- A metadata row of the work `7` of the source `p`. -/
def pageRow (id download : Uuid) (filePath : Text) : Artifact where
  id := id
  storageRoot := .downloads
  filePath := filePath
  source := ['p']
  sourceWorkId := ['7']
  artifactType := .metadataJson
  mtimeNs := none
  createdAt := id
  downloadJobId := some download
  importJobId := none
  state := .new
  leaseToken := none
  leaseExpiresAt := none

/-- Two executions are running. -/
def pagesLedger (rows : List Artifact) : Ledger Seat where
  clock := 0
  table := ⟨rows, fun _ => [], fun _ => none⟩
  importJobs := [⟨11, some 21, .running⟩, ⟨12, some 22, .running⟩]
  workSources := []

/-- The claim of the work by one of the executions. -/
def pageClaim (download job token : Uuid) (source : Option Text) : Call :=
  .claimWorkBatch { downloadJobId := download, importJobId := job, leaseToken := token,
                    source := source, sourceWorkIds := some [['7']] }

/-- The transactions start. -/
def opened (s : Ledger Seat) (seats : List Seat) : Sessions :=
  seats.foldl (fun sessions k => sessions.place k (some (transaction k k.2))) (.idle s)

theorem opened_append (s : Ledger Seat) (seats : List Seat) (k : Seat) :
    opened s (seats ++ [k]) = (opened s seats).place k (some (transaction k k.2)) := by
  rw [opened, foldl_append]
  rfl

theorem opened_shared (s : Ledger Seat) (seats : List Seat) : (opened s seats).shared = s := by
  induction seats using reverseRecOn with
  | nil => rfl
  | append_singleton seats k ih =>
    rw [opened_append]
    exact ih

theorem opened_free (s : Ledger Seat) (h : k ∉ seats) : (opened s seats).seat k = none := by
  induction seats using reverseRecOn with
  | nil => rfl
  | append_singleton seats l ih =>
    rw [mem_append, mem_singleton, not_or] at h
    rw [opened_append, place_other _ h.2]
    exact ih h.1

/-- Transactions start one after the other. -/
theorem reaches_opened {enter : Sessions → Seat → Program Unit (Ledger Seat) Unit → Prop}
    (hnodup : seats.Nodup)
    (henter : ∀ before k after, seats = before ++ k :: after →
      enter (opened s before) k (transaction k k.2)) :
    Reaches enter surroundings (idle s) (opened s seats) := by
  induction seats using reverseRecOn with
  | nil => exact .refl
  | append_singleton seats k ih =>
    rw [nodup_append] at hnodup
    obtain ⟨hseats, -, hdisjoint⟩ := hnodup
    have hnew : k ∉ seats := fun hmem => hdisjoint k hmem k mem_cons_self rfl
    rw [opened_append]
    refine (ih hseats fun before l after hsplit => henter before l (after ++ [k]) ?_).tail
      (.start k _ (opened_free s hnew) (henter seats k [] rfl))
    rw [hsplit, append_assoc]
    rfl

/-- Nothing is open in the ledger. -/
theorem starts_opened (rows : List Artifact) (seats : List Seat) (k : Seat) :
    starts (opened (pagesLedger rows) seats) k (transaction k k.2) := by
  refine .inl ⟨rfl, ?_, fun file => ?_⟩
  · rw [opened_shared]
    rfl
  · rw [opened_shared]
    nofun

/-- Claims without a source, for two downloads that hold the same work. -/
def firstClaim : Seat := (0, [pageClaim 1 11 21 none])

def secondClaim : Seat := (1, [pageClaim 2 12 22 none])

/-- Claims that name the source, and an upsert that registers a page of the work. -/
def firstNamed : Seat := (0, [pageClaim 1 11 21 (some ['p'])])

def secondNamed : Seat := (1, [pageClaim 2 12 22 (some ['p'])])

def newPage : Seat :=
  (2, [.upsertMany [⟨2, .downloads, ['b'], ['p'], ['7'], .metadataJson, none, 2, some 2, .new⟩]
    1000])

/-- Every file is registered as metadata of the work. -/
def pageRegistry : Registry := fun _ => ((['p'], ['7']), .metadataJson)

theorem regular_pages : ∀ k ∈ [firstNamed, secondNamed, newPage], ∀ call ∈ k.2,
    call.Regular pageRegistry := by
  simp [firstNamed, secondNamed, newPage, pageClaim, Call.Regular, pageRegistry,
    NewArtifact.inserted, Artifact.work]

/-- Two executions hold a work.  Without a source the claims lock different rows of the
work, and neither sees the lease of the other before the commit.  With the source the
second claim locks its row when the first one has committed, its snapshot is older, and
a page that was registered since is leased to it. -/
theorem works_leased_twice :
    (∃ sessions : Sessions,
      Reaches starts surroundings
        (idle (pagesLedger [pageRow 1 1 ['a'], pageRow 2 2 ['b']])) sessions ∧
      ¬Exclusive sessions.shared.clock (leases sessions.shared.table.rows)) ∧
    ∃ sessions : Sessions,
      Reaches (fun sessions k p => starts sessions k p ∧
          ∀ call ∈ k.2, call.Regular pageRegistry) surroundings
        (idle (pagesLedger [pageRow 1 1 ['a']])) sessions ∧
      ¬Exclusive sessions.shared.clock (leases sessions.shared.table.rows) := by
  constructor
  · have hopened : Reaches starts surroundings (idle (pagesLedger _))
        (opened (pagesLedger [pageRow 1 1 ['a'], pageRow 2 2 ['b']]) [firstClaim, secondClaim]) :=
      reaches_opened (by decide) fun before k _ _ => starts_opened _ before k
    refine ⟨_, hopened.trans (reaches_schedule () _ (replicate 5 firstClaim ++
      replicate 5 secondClaim ++ [firstClaim, secondClaim])), ?_⟩
    decide +kernel
  · have hopened : Reaches (fun sessions k p => starts sessions k p ∧
          ∀ call ∈ k.2, call.Regular pageRegistry) surroundings (idle (pagesLedger _))
        (opened (pagesLedger [pageRow 1 1 ['a']]) [firstNamed, secondNamed, newPage]) :=
      reaches_opened (by decide) fun before k after hsplit => ⟨starts_opened _ before k,
        regular_pages k (hsplit ▸ by simp)⟩
    refine ⟨_, hopened.trans (reaches_schedule () _ (replicate 2 secondNamed ++
      replicate 6 firstNamed ++ replicate 2 newPage ++ replicate 4 secondNamed)), ?_⟩
    decide +kernel

/-- **The leases stay exclusive** in every run in which two transactions that are open at
the same time lease different works, every claim names its source and every file stays
with its work.  And `mark_work_results` changes no row but those leased to its execution,
whatever the other transactions do. -/
theorem leases_stay_exclusive (registry : Registry) {s : Ledger Seat}
    (hstart : Orderly registry s) :
    (∀ sessions, Reaches (startsApart registry) surroundings (idle s) sessions →
      Exclusive sessions.shared.clock (leases sessions.shared.table.rows)) ∧
    ∀ (k : Seat) (args : ResultArgs) (job token : Uuid), args.expectedImportJobId = some job →
      args.expectedLeaseToken = some token → ∀ t,
        Keeps (executionContract k job token) (markWorkResults k args) (fun _ _ => True) t :=
  ⟨fun _ hreach => ((sessions_sound registry).reachable (good_idle hstart) hreach).inv.exclusive,
    fun _ _ _ _ hjob htoken t => markWorkResults_onlyLeased hjob htoken t⟩

/-- A claim, and a new page at the same time: the work has a holder. -/
theorem leases_stay_exclusive_pages :
    ∃ sessions : Sessions,
      Reaches (startsApart pageRegistry) surroundings
        (idle (pagesLedger [pageRow 1 1 ['a']])) sessions ∧
      (leases sessions.shared.table.rows).map (·.token) = [some 21, some 21] ∧
      Exclusive sessions.shared.clock (leases sessions.shared.table.rows) := by
  have hstart : Orderly pageRegistry (pagesLedger [pageRow 1 1 ['a']]) := by
    refine ⟨by decide, fun row hrow => ?_⟩
    obtain rfl := mem_singleton.mp hrow
    exact ⟨rfl, nofun⟩
  have hcovers : ∀ work, ¬Seat.Covers newPage work := by
    rintro work ⟨call, hcall, hcovers⟩
    obtain rfl := mem_singleton.mp hcall
    exact hcovers
  have hopened : Reaches (startsApart pageRegistry) surroundings
      (idle (pagesLedger [pageRow 1 1 ['a']]))
      (opened (pagesLedger [pageRow 1 1 ['a']]) [firstNamed, newPage]) := by
    refine reaches_opened (by decide) fun before k after hsplit =>
      ⟨starts_opened _ before k, regular_pages k ?_, fun l hne hrunning work hboth => ?_⟩
    · have hmem : k ∈ [firstNamed, newPage] := by rw [hsplit]; simp
      rcases mem_pair.mp hmem with rfl | rfl <;> simp
    match before with
    | [] => exact hrunning rfl
    | first :: rest =>
      obtain ⟨rfl, hrest⟩ := cons.inj hsplit
      have hk : k = newPage := by
        match rest with
        | [] => exact (cons.inj hrest).1.symm
        | second :: rest => simp at hrest
      exact hcovers work (hk ▸ hboth.1)
  have hreach := hopened.trans (reaches_schedule () _
    ([firstNamed, newPage, newPage] ++ replicate 6 firstNamed))
  refine ⟨_, hreach, ?_, (leases_stay_exclusive pageRegistry hstart).1 _ hreach⟩
  decide +kernel

end ArtifactLedger
