import AutoGallery.SearchLanguage

/-!
# A runtime for ASCII queries

Case conversion of ASCII letters, calendar dates without a time, and one provider
that knows one work.  The instance shows that the laws of `CaseMap` can be met
together, and queries can be evaluated in it.
-/

namespace SearchLanguage

open PyText SourceIdentity

theorem isspace_toLower (c : Char) : isspace c.toLower = isspace c := by
  by_cases hup : c.isUpper = true
  · have hrange : 65 ≤ c.toNat ∧ c.toNat ≤ 90 := by
      simp only [Char.isUpper, decide_eq_true_eq] at hup
      exact ⟨hup.1, hup.2⟩
    obtain ⟨n, hn⟩ : ∃ n, c = Char.ofNat n ∧ 65 ≤ n ∧ n ≤ 90 :=
      ⟨c.toNat, (Char.ofNat_toNat c).symm, hrange⟩
    obtain ⟨rfl, hlow, hhigh⟩ := hn
    interval_cases n <;> rfl
  · rw [Char.toLower_eq_of_not_isUpper hup]

/-- Case conversion of ASCII letters. -/
def asciiCase : CaseMap where
  lower t := t.map Char.toLower
  upper t := t.map Char.toUpper
  lower_ascii := fun _ _ => rfl
  lower_ascii_start := fun a t _ => ⟨t.map Char.toLower, List.map_append⟩
  lower_lower := by
    intro t
    rw [List.map_map]
    apply List.map_congr_left
    intro c _
    exact Char.toLower_toLower_eq_toLower c
  lower_stripped := by
    intro t ht
    obtain ⟨hhead, hlast⟩ := stripped_iff.mp ht
    refine stripped_iff.mpr ⟨?_, ?_⟩
    · intro c hc
      rw [List.head?_map] at hc
      obtain ⟨d, hd, rfl⟩ := Option.mem_map.mp hc
      rw [isspace_toLower]
      exact hhead d hd
    · intro c hc
      rw [List.getLast?_map] at hc
      obtain ⟨d, hd, rfl⟩ := Option.mem_map.mp hc
      rw [isspace_toLower]
      exact hlast d hd
  lower_eq_nil := fun _ h => List.map_eq_nil_iff.mp h

/-- The one URL the provider knows. -/
def artworkUrl : Text := "https://www.pixiv.net/artworks/456".toList

/-- Days from 1970-01-01 to a date of the Gregorian calendar, counted in years
that start in March. -/
def daysFromCivil (year month day : Int) : Int :=
  let y := if month ≤ 2 then year - 1 else year
  let era := y / 400
  let yearOfEra := y - era * 400
  let dayOfYear := (153 * (if month > 2 then month - 3 else month + 9) + 2) / 5 + day - 1
  let dayOfEra := yearOfEra * 365 + yearOfEra / 4 - yearOfEra / 100 + dayOfYear
  era * 146097 + dayOfEra - 719468

def digits (t : Text) : Int :=
  t.foldl (fun n c => n * 10 + (c.toNat - 48 : Int)) 0

/-- `datetime.fromisoformat` of a calendar date. -/
def calendarDate : Text → Option IsoDateTime
  | [y₁, y₂, y₃, y₄, '-', m₁, m₂, '-', d₁, d₂] =>
    let year := digits [y₁, y₂, y₃, y₄]
    let month := digits [m₁, m₂]
    let day := digits [d₁, d₂]
    let next := if month = 12 then daysFromCivil (year + 1) 1 1
      else daysFromCivil year (month + 1) 1
    if 1 ≤ month ∧ month ≤ 12 ∧ 1 ≤ day ∧ daysFromCivil year month day < next then
      some ⟨daysFromCivil year month day, 0, none⟩
    else none
  | _ => none

def asciiRuntime : Runtime where
  toCaseMap := asciiCase
  hostname candidate := .ok (if candidate = artworkUrl then some "www.pixiv.net".toList else none)
  parseSearchUrl source candidate :=
    .ok (if source = "pixiv".toList ∧ candidate = artworkUrl then some ⟨.work, artworkUrl⟩
      else none)
  isdecimal c := '0' ≤ c && c ≤ '9'
  fromisoformat := calendarDate

theorem asciiRuntime_normalises : Normalises asciiRuntime.toUrlRuntime := by
  intro value url h
  have hknown : parseSourceUrl asciiRuntime.toUrlRuntime artworkUrl =
      .ok (some ⟨"pixiv".toList, .work, artworkUrl⟩) := by decide
  unfold parseSourceUrl at h
  simp only at h
  split at h
  · cases h
  split at h
  · cases h
  · split at h
    · cases h
    next source hsource =>
      split at h
      · cases h
      simp only [asciiRuntime] at h
      split at h
      · cases h
      · cases h
      rename_i parsed hparsed
      cases h
      by_cases hcase : source = "pixiv".toList ∧ strip value = artworkUrl
      · rw [if_pos hcase] at hparsed
        cases hparsed
        rw [hcase.1]
        exact hknown
      · rw [if_neg hcase] at hparsed
        cases hparsed

end SearchLanguage
