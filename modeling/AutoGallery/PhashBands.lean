import AutoGallery.PyText

/-!
# Candidates by bands of the perceptual hash

A perceptual hash is a number of 64 bits, stored as sixteen hexadecimal digits.  Assets
whose hashes are close are found through five bands of these digits: a candidate agrees
with the asset on one band at least.  The bands cover every digit once, and every digit on
which two hashes differ costs one bit of their distance; so at a distance of four or less
one of the five bands is free of differences.
-/

namespace PhashBands

open PyText

/-- The columns of an asset that the search for candidates reads. -/
structure Asset where
  phash : Option Text
  phashVersion : Option Text

/-- `PHASH_BANDS`: the first digit of a band, counted from 1, and how many there are. -/
def phashBands : List (Nat × Nat) := [(1, 3), (4, 3), (7, 3), (10, 3), (13, 4)]

/-- `substr(text, start, length)`, and `text[start - 1 : start - 1 + length]`. -/
def substr (text : Text) (start length : Nat) : Text := (text.drop (start - 1)).take length

/-- The predicate of one band.  A row without a hash satisfies none. -/
def bandCondition (phash : Text) (phashVersion : Option Text) (band : Nat × Nat) (other : Asset) :
    Bool :=
  other.phashVersion = phashVersion &&
    other.phash.any fun text => substr text band.1 band.2 = substr phash band.1 band.2

/-- `phash_candidate_conditions`. -/
def phashCandidateConditions (asset : Asset) : List (Asset → Bool) :=
  match asset.phash.getD [] with
  | [] => []
  | phash => phashBands.map (bandCondition phash asset.phashVersion)

/-- `int.bit_count`. -/
def bitCount (n : Int) : Nat := (Nat.digits 2 n.natAbs).sum

/-- `phash_distance`; `int16` is `int(text, 16)`, or `none` if that raises. -/
def phashDistance (int16 : Text → Option Int) (left right : Option Text) : Option Nat :=
  if left.getD [] = [] ∨ right.getD [] = [] then none
  else
    match int16 (left.getD []), int16 (right.getD []) with
    | some l, some r => some (bitCount (l.xor r))
    | _, _ => none

/-- `versioned_phash_distance`. -/
def versionedPhashDistance (int16 : Text → Option Int) (left right : Asset) : Option Nat :=
  if left.phashVersion ≠ right.phashVersion then none
  else phashDistance int16 left.phash right.phash

/-- `phash_threshold` of the policy; `raw` is the value of the setting, if there is one. -/
def phashThreshold (raw : Option Int) : Int := max 0 (min 4 (raw.getD 4))

section Digits

/-- A hexadecimal digit in lower case. -/
def IsHexDigit (c : Char) : Prop := '0' ≤ c ∧ c ≤ '9' ∨ 'a' ≤ c ∧ c ≤ 'f'

def hexDigit (c : Char) : Nat := if c ≤ '9' then c.toNat - 48 else c.toNat - 87

/-- The number that hexadecimal digits stand for. -/
def hexValue (text : Text) : Nat := text.foldl (fun n c => 16 * n + hexDigit c) 0

/-- What `int(text, 16)` gives for digits without a sign, a prefix or blanks. -/
def ReadsHex (int16 : Text → Option Int) : Prop :=
  ∀ text ≠ [], (∀ c ∈ text, IsHexDigit c) → int16 text = some (hexValue text)

/-- A hash as the import writes it. -/
structure IsPhash (text : Text) : Prop where
  length : text.length = 16
  digits : ∀ c ∈ text, IsHexDigit c

variable {c : Char}

theorem IsHexDigit.bounds (h : IsHexDigit c) :
    48 ≤ c.toNat ∧ c.toNat ≤ 57 ∨ 97 ≤ c.toNat ∧ c.toNat ≤ 102 := h

theorem hexDigit_eq (c : Char) :
    hexDigit c = if c.toNat ≤ 57 then c.toNat - 48 else c.toNat - 87 := rfl

theorem hexDigit_lt (h : IsHexDigit c) : hexDigit c < 16 := by
  have hbounds := h.bounds
  rw [hexDigit_eq]
  split <;> omega

theorem hexDigit_inj {d : Char} (hc : IsHexDigit c) (hd : IsHexDigit d)
    (h : hexDigit c = hexDigit d) : c = d := by
  have hcb := hc.bounds
  have hdb := hd.bounds
  rw [hexDigit_eq, hexDigit_eq] at h
  apply Char.ext
  apply UInt32.toNat_inj.mp
  change c.toNat = d.toNat
  split at h <;> split at h <;> omega

theorem hexValue_concat (text : Text) (c : Char) :
    hexValue (text ++ [c]) = 16 * hexValue text + hexDigit c := by
  simp [hexValue]

end Digits

section Distance

/-- The number of places at which two texts of one length differ. -/
def mismatches (s t : Text) : Nat := (s.zip t).countP fun p => p.1 ≠ p.2

variable {s t : Text}

theorem mismatches_append {s' t' : Text} (h : s.length = t.length) :
    mismatches (s ++ s') (t ++ t') = mismatches s t + mismatches s' t' := by
  rw [mismatches, List.zip_append h, List.countP_append, mismatches, mismatches]

/-- The differences before a place and those after it. -/
theorem mismatches_split (n : Nat) (h : s.length = t.length) :
    mismatches s t = mismatches (s.take n) (t.take n) + mismatches (s.drop n) (t.drop n) := by
  rw [← mismatches_append (by simp [h]), List.take_append_drop, List.take_append_drop]

theorem mismatches_pos (hlength : s.length = t.length) (h : s ≠ t) : 0 < mismatches s t := by
  induction s generalizing t with
  | nil => exact absurd (List.length_eq_zero_iff.mp hlength.symm).symm h
  | cons c s ih =>
    obtain _ | ⟨d, t⟩ := t
    · cases hlength
    · by_cases hcd : c = d
      · subst hcd
        have hrest := ih (by simpa using hlength) fun heq => h (heq ▸ rfl)
        simpa [mismatches] using hrest
      · simp [mismatches, hcd]

/-- The bits of a number, its last one apart. -/
theorem bitCount_div_two (n : Nat) : bitCount n = bitCount (n / 2 : Nat) + n % 2 := by
  rcases Nat.eq_zero_or_pos n with rfl | hpos
  · rfl
  · simp only [bitCount, Int.natAbs_natCast]
    rw [Nat.digits_def' (by decide) hpos, List.sum_cons, add_comm]

/-- A last hexadecimal digit on which two numbers differ costs one bit at least. -/
theorem bitCount_xor_step (m n : Nat) :
    bitCount (m / 16 ^^^ n / 16 : Nat) + (if m % 16 = n % 16 then 0 else 1) ≤
      bitCount (m ^^^ n : Nat) := by
  have hhigh : (m ^^^ n) / 16 = m / 16 ^^^ n / 16 := Nat.xor_div_two_pow (n := 4)
  have hlow : (m ^^^ n) % 16 = m % 16 ^^^ n % 16 := Nat.xor_mod_two_pow (n := 4)
  have hzero : m % 16 ≠ n % 16 → (m ^^^ n) % 16 ≠ 0 := fun hne heq =>
    hne (Nat.xor_eq_zero_iff.mp (hlow ▸ heq))
  rw [← hhigh]
  generalize m ^^^ n = x at hzero
  have h₀ := bitCount_div_two x
  have h₁ := bitCount_div_two (x / 2)
  have h₂ := bitCount_div_two (x / 2 / 2)
  have h₃ := bitCount_div_two (x / 2 / 2 / 2)
  rw [show x / 16 = x / 2 / 2 / 2 / 2 by omega]
  split
  · omega
  · next hne =>
    have := hzero hne
    omega

/-- Every digit on which two hashes differ costs one bit of their distance. -/
theorem mismatches_le (hlength : s.length = t.length) (hs : ∀ c ∈ s, IsHexDigit c)
    (ht : ∀ c ∈ t, IsHexDigit c) : mismatches s t ≤ bitCount (hexValue s ^^^ hexValue t : Nat) := by
  induction s using List.reverseRecOn generalizing t with
  | nil =>
    rw [List.length_eq_zero_iff.mp hlength.symm]
    rfl
  | append_singleton s c ih =>
    obtain rfl | ⟨t, d, rfl⟩ := t.eq_nil_or_concat'
    · simp at hlength
    have hlength' : s.length = t.length := by simpa using hlength
    have hc := hs c (by simp)
    have hd := ht d (by simp)
    have hrest := ih hlength' (fun a ha => hs a (by simp [ha])) fun a ha => ht a (by simp [ha])
    have hstep := bitCount_xor_step (hexValue (s ++ [c])) (hexValue (t ++ [d]))
    have hcl := hexDigit_lt hc
    have hdl := hexDigit_lt hd
    rw [hexValue_concat, hexValue_concat,
      show (16 * hexValue s + hexDigit c) / 16 = hexValue s by omega,
      show (16 * hexValue t + hexDigit d) / 16 = hexValue t by omega,
      show (16 * hexValue s + hexDigit c) % 16 = hexDigit c by omega,
      show (16 * hexValue t + hexDigit d) % 16 = hexDigit d by omega] at hstep
    rw [mismatches_append hlength', hexValue_concat, hexValue_concat]
    have hlast : mismatches [c] [d] ≤ if hexDigit c = hexDigit d then 0 else 1 := by
      by_cases hcd : c = d
      · simp [mismatches, hcd]
      · have hne : hexDigit c ≠ hexDigit d := fun heq => hcd (hexDigit_inj hc hd heq)
        simp [mismatches, hcd, hne]
    omega

end Distance

section Bands

/-- The bands cover sixteen digits, each once: if two hashes differ on every band, they
differ in five digits at least. -/
theorem five_le_mismatches {s t : Text} (hs : s.length = 16) (ht : t.length = 16)
    (h : ∀ band ∈ phashBands, substr s band.1 band.2 ≠ substr t band.1 band.2) :
    5 ≤ mismatches s t := by
  have hlength : s.length = t.length := hs.trans ht.symm
  have hband : ∀ band ∈ phashBands,
      0 < mismatches (substr s band.1 band.2) (substr t band.1 band.2) := fun band hmem =>
    mismatches_pos (by simp [substr, hlength]) (h band hmem)
  have h₁ : 0 < mismatches (s.take 3) (t.take 3) := hband (1, 3) (by decide)
  have h₂ : 0 < mismatches ((s.drop 3).take 3) ((t.drop 3).take 3) := hband (4, 3) (by decide)
  have h₃ : 0 < mismatches ((s.drop 6).take 3) ((t.drop 6).take 3) := hband (7, 3) (by decide)
  have h₄ : 0 < mismatches ((s.drop 9).take 3) ((t.drop 9).take 3) := hband (10, 3) (by decide)
  have h₅ : 0 < mismatches ((s.drop 12).take 4) ((t.drop 12).take 4) := hband (13, 4) (by decide)
  have e₁ := mismatches_split 3 hlength
  have e₂ := mismatches_split 3 (s := s.drop 3) (t := t.drop 3) (by simp [hlength])
  have e₃ := mismatches_split 3 (s := s.drop 6) (t := t.drop 6) (by simp [hlength])
  have e₄ := mismatches_split 3 (s := s.drop 9) (t := t.drop 9) (by simp [hlength])
  have e₅ := mismatches_split 4 (s := s.drop 12) (t := t.drop 12) (by simp [hlength])
  simp only [List.drop_drop, Nat.reduceAdd] at e₁ e₂ e₃ e₄ e₅
  omega

/-- A pair within the threshold of the policy agrees on a band: the conditions of the one
asset find the other. -/
theorem candidate_of_distance_le {int16 : Text → Option Int} (hint : ReadsHex int16)
    {asset other : Asset} {left right : Text} (hleft : asset.phash = some left)
    (hright : other.phash = some right) (hl : IsPhash left) (hr : IsPhash right)
    (hversion : asset.phashVersion = other.phashVersion) (raw : Option Int) {distance : Nat}
    (hdistance : versionedPhashDistance int16 asset other = some distance)
    (hle : (distance : Int) ≤ phashThreshold raw) :
    ∃ condition ∈ phashCandidateConditions asset, condition other = true := by
  have hnil : ∀ {text : Text}, IsPhash text → text ≠ [] := fun h heq => by
    simpa [heq] using h.length
  have hvalue : distance = bitCount (hexValue left ^^^ hexValue right : Nat) := by
    simp only [versionedPhashDistance, hversion, phashDistance, hleft, hright, Option.getD_some,
      hint left (hnil hl) hl.digits, hint right (hnil hr) hr.digits, hnil hl, hnil hr, or_self,
      ne_eq, not_true, if_false] at hdistance
    exact (Option.some.inj hdistance).symm
  have hclose := mismatches_le (hl.length.trans hr.length.symm) hl.digits hr.digits
  have hfour : distance ≤ 4 := by
    unfold phashThreshold at hle
    omega
  -- otherwise the hashes differ on every band
  obtain ⟨band, hband, hsame⟩ : ∃ band ∈ phashBands,
      substr left band.1 band.2 = substr right band.1 band.2 := by
    by_contra hnone
    have := five_le_mismatches hl.length hr.length fun band hband hsame =>
      hnone ⟨band, hband, hsame⟩
    omega
  obtain ⟨c, rest, rfl⟩ := List.exists_cons_of_ne_nil (hnil hl)
  refine ⟨bandCondition (c :: rest) asset.phashVersion band, ?_, ?_⟩
  · simp only [phashCandidateConditions, hleft, Option.getD_some]
    exact List.mem_map_of_mem hband
  · simp [bandCondition, hversion, hright, hsame]

/-- Two hashes that differ in one bit of four of the five bands. -/
theorem candidate_of_distance_four :
    ∃ condition ∈ phashCandidateConditions
        ⟨some "0000000000000000".toList, some "imagehash-phash-v1".toList⟩,
      condition ⟨some "0010010010010000".toList, some "imagehash-phash-v1".toList⟩ = true :=
  candidate_of_distance_le (fun _ _ _ => rfl : ReadsHex fun text => some (hexValue text)) rfl rfl
    ⟨rfl, by simp [IsHexDigit]⟩ ⟨rfl, by simp [IsHexDigit]⟩ rfl none (by decide +kernel : _ = some 4)
    (by decide)

end Bands

end PhashBands
