import Mathlib

/-!
# Python text

Text as a list of code points with the operations the search language uses:
`isspace`, `strip`, `startswith`, `endswith`, `replace` of one character and
`split` at the first occurrence of one.  Case conversion follows the Unicode
tables and looks at the neighbourhood of a letter, so it is a parameter
(`CaseMap`) with the facts about it that hold for every text.
-/

namespace PyText

open List

/-- A Python string. -/
abbrev Text := List Char

/-- Looking a text up in a list of texts. -/
instance decidableMemTexts (t : Text) (texts : List Text) : Decidable (t ∈ texts) :=
  inferInstance

/-- `str.isspace` of one character. -/
def isspace (c : Char) : Bool :=
  let n := c.toNat
  (0x09 ≤ n && n ≤ 0x0d) || (0x1c ≤ n && n ≤ 0x20) || n == 0x85 || n == 0xa0 || n == 0x1680 ||
    (0x2000 ≤ n && n ≤ 0x200a) || n == 0x2028 || n == 0x2029 || n == 0x202f || n == 0x205f ||
    n == 0x3000

/-- `str.strip()`. -/
def strip (t : Text) : Text :=
  (t.dropWhile isspace).rdropWhile isspace

/-- `str.startswith`. -/
def startswith (t start : Text) : Bool :=
  start.isPrefixOf t

/-- `str.endswith`. -/
def endswith (t tail : Text) : Bool :=
  tail.isSuffixOf t

/-- `str.replace` of a single character. -/
def replaceChar (t : Text) (c : Char) (new : Text) : Text :=
  t.flatMap fun d => if d = c then new else [d]

/-- `str.split(c, 1)` of a text that contains `c`. -/
def splitAt (t : Text) (c : Char) : Text × Text :=
  (t.takeWhile (· ≠ c), (t.dropWhile (· ≠ c)).tail)

/-- `str.rstrip(c)` of a single character. -/
def rstrip (t : Text) (c : Char) : Text :=
  t.rdropWhile (· = c)

/-- `str.rsplit(c, 1)[0]`: what stands before the last `c`, or the whole text. -/
def rsplitFirst (t : Text) (c : Char) : Text :=
  if c ∈ t then (t.rdropWhile (· ≠ c)).dropLast else t

/-- A character inside of `json.dumps(value, ensure_ascii=False)`. -/
def jsonChar (c : Char) : Text :=
  if c = '"' ∨ c = '\\' then ['\\', c]
  else if c = '\n' then "\\n".toList
  else if c = '\r' then "\\r".toList
  else if c = '\t' then "\\t".toList
  else if c.toNat = 8 then "\\b".toList
  else if c.toNat = 12 then "\\f".toList
  else if c.toNat < 32 then
    "\\u00".toList ++ [Nat.digitChar (c.toNat / 16), Nat.digitChar (c.toNat % 16)]
  else [c]

/-- `json.dumps(value, ensure_ascii=False)` of a text. -/
def jsonDumps (t : Text) : Text :=
  '"' :: t.flatMap jsonChar ++ ['"']

/-- `PurePosixPath(path).name`: the last component that is neither empty nor a
single dot. -/
def pathName (path : Text) : Text :=
  ((path.splitOn '/').filter fun part => part ≠ [] ∧ part ≠ ['.']).getLastD []

/-- `PurePosixPath(path).suffix`: what follows the last dot of the name, with the
dot, if something stands on either side of it. -/
def suffix (path : Text) : Text :=
  let name := pathName path
  let extension := name.rtakeWhile (· ≠ '.')
  if extension.length + 1 < name.length ∧ extension ≠ [] then '.' :: extension else []

/-- A text without white space at its ends. -/
def Stripped (t : Text) : Prop :=
  strip t = t

variable {t a : Text}

theorem dropWhile_eq_self_of_head {p : Char → Bool} (h : ∀ c ∈ t.head?, p c = false) :
    t.dropWhile p = t := by
  cases t with
  | nil => rfl
  | cons c rest => rw [dropWhile_cons_of_neg (by simp [h c rfl])]

/-- Trimming both ends leaves nothing of a text that consists of such characters. -/
theorem trim_eq_nil_iff (p : Char → Bool) (t : Text) :
    (t.dropWhile p).rdropWhile p = [] ↔ ∀ c ∈ t, p c = true := by
  rw [rdropWhile_eq_nil_iff]
  constructor
  · intro h c hc
    rw [← takeWhile_append_dropWhile (p := p) (l := t)] at hc
    rcases mem_append.mp hc with htake | hdrop
    · exact mem_takeWhile_imp htake
    · exact h c hdrop
  · intro h c hc
    exact h c ((dropWhile_suffix _).subset hc)

/-- Exactly the texts of white space are stripped away. -/
theorem strip_eq_nil_iff (t : Text) : strip t = [] ↔ ∀ c ∈ t, isspace c = true :=
  trim_eq_nil_iff isspace t

/-- What `strip` leaves neither starts nor ends with white space. -/
theorem strip_ends (t : Text) :
    (∀ c ∈ (strip t).head?, isspace c = false) ∧ ∀ c ∈ (strip t).getLast?, isspace c = false := by
  constructor
  · intro c hc
    obtain ⟨tail, htail⟩ := rdropWhile_prefix isspace (t.dropWhile isspace)
    have hhead : (t.dropWhile isspace).head? = some c := by
      rw [← htail]
      unfold strip at hc
      cases hcase : (t.dropWhile isspace).rdropWhile isspace with
      | nil => rw [hcase] at hc; cases hc
      | cons d rest => rw [hcase] at hc; exact hc
    have hnot := head?_dropWhile_not isspace t
    rw [hhead] at hnot
    exact hnot
  · intro c hc
    unfold strip at hc
    have hne : (t.dropWhile isspace).rdropWhile isspace ≠ [] := by
      intro hnil
      rw [hnil] at hc
      cases hc
    have hlast := rdropWhile_last_not isspace (t.dropWhile isspace) hne
    rw [getLast?_eq_some_getLast hne] at hc
    cases hc
    simpa using hlast

/-- Exactly the texts that neither start nor end with white space are
stripped. -/
theorem stripped_iff :
    Stripped t ↔ (∀ c ∈ t.head?, isspace c = false) ∧ ∀ c ∈ t.getLast?, isspace c = false := by
  constructor
  · intro h
    have hends := strip_ends t
    rwa [show strip t = t from h] at hends
  rintro ⟨hhead, hlast⟩
  unfold Stripped strip
  rw [dropWhile_eq_self_of_head hhead, rdropWhile_eq_self_iff]
  intro hne
  have hspace := hlast (t.getLast hne) (getLast?_eq_some_getLast hne)
  simp [hspace]

theorem stripped_strip (t : Text) : Stripped (strip t) :=
  stripped_iff.mpr (strip_ends t)

theorem stripped_of_noSpace (h : ∀ c ∈ t, isspace c = false) : Stripped t :=
  stripped_iff.mpr ⟨fun c hc => h c (mem_of_mem_head? hc), fun c hc => h c (mem_of_getLast? hc)⟩

/-- A solid beginning survives `strip`. -/
theorem strip_append (hne : a ≠ []) (h : ∀ c ∈ a, isspace c = false) (t : Text) :
    ∃ rest, strip (a ++ t) = a ++ rest := by
  have hhead : (a ++ t).dropWhile isspace = a ++ t := by
    apply dropWhile_eq_self_of_head
    intro c hc
    rw [head?_append_of_ne_nil _ hne] at hc
    exact h c (mem_of_mem_head? hc)
  have hback : a.reverse.dropWhile isspace = a.reverse := by
    apply dropWhile_eq_self_of_head
    intro c hc
    exact h c (mem_reverse.mp (mem_of_mem_head? hc))
  unfold strip
  rw [hhead, rdropWhile, reverse_append, dropWhile_append]
  split
  · rw [hback, reverse_reverse]
    exact ⟨[], by simp⟩
  · rw [reverse_append, reverse_reverse]
    exact ⟨_, rfl⟩

theorem splitAt_append {c : Char} (h : c ∉ a) (b : Text) : splitAt (a ++ c :: b) c = (a, b) := by
  have hne : ∀ d ∈ a, decide (d ≠ c) = true := by
    intro d hd
    simpa using fun heq : d = c => h (heq ▸ hd)
  unfold splitAt
  rw [takeWhile_append_of_pos hne, dropWhile_append_of_pos hne]
  simp

/-- Case conversion.  On ASCII it is the familiar one and an ASCII beginning is
converted without regard to what follows; it is idempotent, and it neither
makes nor removes white space at the ends of a text. -/
structure CaseMap where
  lower : Text → Text
  upper : Text → Text
  lower_ascii : ∀ t, (∀ c ∈ t, c.toNat < 128) → lower t = t.map Char.toLower
  lower_ascii_start : ∀ a t, (∀ c ∈ a, c.toNat < 128) →
    ∃ rest, lower (a ++ t) = a.map Char.toLower ++ rest
  lower_lower : ∀ t, lower (lower t) = lower t
  lower_stripped : ∀ t, Stripped t → Stripped (lower t)
  lower_eq_nil : ∀ t, lower t = [] → t = []

/-- A lower-case ASCII word without white space. -/
def plainLower (t : Text) : Bool :=
  t.all (fun c => c.toNat < 128 && !isspace c) && t.map Char.toLower = t

section

variable (h : plainLower t = true)
include h

theorem ascii_of_plainLower : ∀ c ∈ t, c.toNat < 128 := by
  intro c hc
  simp only [plainLower, Bool.and_eq_true, all_eq_true] at h
  exact of_decide_eq_true (h.1 c hc).1

theorem noSpace_of_plainLower : ∀ c ∈ t, isspace c = false := by
  intro c hc
  simp only [plainLower, Bool.and_eq_true, all_eq_true, Bool.not_eq_true'] at h
  exact (h.1 c hc).2

theorem strip_plainLower : strip t = t :=
  stripped_of_noSpace (noSpace_of_plainLower h)

theorem lower_plainLower (M : CaseMap) : M.lower t = t := by
  have hmap : t.map Char.toLower = t := by
    simp only [plainLower, Bool.and_eq_true, decide_eq_true_eq] at h
    exact h.2
  exact (M.lower_ascii t (ascii_of_plainLower h)).trans hmap

end

section Results

variable {ε α β : Type} {x : Except ε α} {b : β}

/-- A result that is mapped and no exception. -/
theorem map_ok {f : α → β} (h : x.map f = .ok b) : ∃ a, x = .ok a ∧ f a = b := by
  cases x with
  | error e => cases h
  | ok a => exact ⟨a, rfl, Except.ok.inj h⟩

theorem map_error {f : α → β} {e : ε} : x.map f = .error e ↔ x = .error e := by
  cases x <;> simp [Except.map]

theorem mapError_ok {ε' : Type} {f : ε → ε'} {a : α} (h : x.mapError f = .ok a) : x = .ok a := by
  cases x with
  | error e => cases h
  | ok a => exact congrArg _ (Except.ok.inj h)

/-- A call that goes on with a result, without an exception. -/
theorem bind_ok {f : α → Except ε β} (h : x >>= f = .ok b) : ∃ a, x = .ok a ∧ f a = .ok b := by
  cases x with
  | error e => cases h
  | ok a => exact ⟨a, rfl, h⟩

/-- Every entry on the right has a partner on the left. -/
theorem exists_of_forall₂ {P : α → β → Prop} {left : List α} {right : List β}
    (h : Forall₂ P left right) (hb : b ∈ right) : ∃ a ∈ left, P a b := by
  induction h with
  | nil => cases hb
  | @cons a b' left right hhead _ ih =>
    rcases mem_cons.mp hb with rfl | hrest
    · exact ⟨a, mem_cons_self, hhead⟩
    · obtain ⟨a', ha', hP⟩ := ih hrest
      exact ⟨a', mem_cons_of_mem _ ha', hP⟩

end Results

section Dictionaries

variable {κ ν : Type} [DecidableEq κ] {set : List (κ × ν) → List (κ × ν)} {key : κ} {value : ν}

/-- `entries[key] = value`: the entry is changed in its place, or added as the last one. -/
structure Assigns (set : List (κ × ν) → List (κ × ν)) (key : κ) (value : ν) : Prop where
  nil : set [] = [(key, value)]
  cons : ∀ first old rest, set ((first, old) :: rest) =
    if first = key then (first, value) :: rest else (first, old) :: set rest

theorem lookup_cons_eq_ite (first other : κ) (old : ν) (rest : List (κ × ν)) :
    ((first, old) :: rest).lookup other =
      if other = first then some old else rest.lookup other := by
  rw [lookup_cons]
  by_cases hother : other = first
  · simp [hother]
  · rw [beq_false_of_ne hother, if_neg hother]

variable (h : Assigns set key value) (entries : List (κ × ν))
include h

theorem Assigns.lookup (other : κ) :
    (set entries).lookup other = if other = key then some value else entries.lookup other := by
  induction entries with
  | nil => rw [h.nil, lookup_cons_eq_ite]
  | cons entry rest ih =>
    rw [h.cons, lookup_cons_eq_ite]
    by_cases hfirst : entry.1 = key
    · rw [if_pos hfirst, lookup_cons_eq_ite, hfirst]
      split <;> rfl
    · rw [if_neg hfirst, lookup_cons_eq_ite, ih]
      split_ifs with hother hkey
      · exact absurd (hother.symm.trans hkey) hfirst
      all_goals rfl

theorem Assigns.keys :
    (set entries).map Prod.fst =
      if key ∈ entries.map Prod.fst then entries.map Prod.fst else entries.map Prod.fst ++ [key] := by
  induction entries with
  | nil => simp [h.nil]
  | cons entry rest ih =>
    rw [h.cons]
    by_cases hfirst : entry.1 = key
    · simp [hfirst]
    · simp only [if_neg hfirst, map_cons, ih, mem_cons, Ne.symm hfirst, false_or]
      split <;> rfl

variable {entries}

theorem Assigns.nodup (hnodup : (entries.map Prod.fst).Nodup) :
    ((set entries).map Prod.fst).Nodup := by
  rw [h.keys]
  split
  next => exact hnodup
  next hnew => exact hnodup.append (nodup_singleton key) (disjoint_singleton.mpr hnew)

end Dictionaries

/-- The row with a key, among rows with different keys. -/
theorem find?_of_nodup {α κ : Type} [DecidableEq κ] {key : α → κ} {rows : List α}
    (h : (rows.map key).Nodup) {row : α} (hrow : row ∈ rows) :
    rows.find? (fun r => decide (key r = key row)) = some row := by
  cases hfound : rows.find? fun r => decide (key r = key row) with
  | none => simpa using find?_eq_none.mp hfound row hrow
  | some found =>
    have hkey : key found = key row := by simpa using find?_some hfound
    rw [inj_on_of_nodup_map h (mem_of_find?_eq_some hfound) hrow hkey]

end PyText
