import AutoGallery.SearchAscii
import AutoGallery.WorkDatabase

/-!
# A small gallery

A runtime of the filters for ASCII queries and instants, and a database with a few
works, on which the general results can be tried.
-/

namespace FilterAscii

open PyText SearchLanguage SearchFilters WorkDatabase

theorem calendarDate_micros {t : Text} {d : IsoDateTime} (h : calendarDate t = some d) :
    d.micros = 0 := by
  unfold calendarDate at h
  split at h
  · simp only [Option.ite_none_right_eq_some] at h
    rw [← Option.some.inj h.2]
  · cases h

theorem tdiv_mono {s t : Int} (h : s ≤ t) : s.tdiv 1000000 ≤ t.tdiv 1000000 := by
  rw [Int.tdiv_eq_ediv, Int.tdiv_eq_ediv]
  simp only [show Int.sign 1000000 = 1 from rfl]
  split <;> split <;> omega

def asciiFilters : FilterRuntime where
  toRuntime := asciiRuntime
  timeOfDay t d h := by
    rw [calendarDate_micros h]
    decide
  timestamp t := t.tdiv 1000000
  timestamp_mono _ _ h := tdiv_mono h
  timestamp_second s := Int.mul_tdiv_cancel s (by decide)
  sqlLower := asciiCase.lower
  sqlLower_ascii := asciiCase.lower_ascii
  foldCase := asciiCase.lower
  foldCase_ascii := asciiCase.lower_ascii

/-- The first moment of 2026. -/
def newYear : Int := 20454 * 86400 * 1000000

/-- A work that was created at an instant. -/
def workAt (createdAt : Int) : Work where
  id := 7
  title := some "dawn".toList
  description := none
  postedAt := none
  createdAt := createdAt
  updatedAt := createdAt
  isNsfw := false
  isAiGenerated := false
  isFavorite := true
  heatScore := none
  shuffleKey := 0

/-- A gallery with one work from one source. -/
def gallery (work : Work) (visibility : Visibility) : Database where
  works := [work]
  workSources := [⟨1, work.id, "pixiv".toList, "456".toList, some "12".toList, none⟩]
  sourceCreators := []
  subscriptionSources := []
  tags := []
  workTags := []
  workSourceTags := []
  assets := []
  assetSources := []
  curationStates := [⟨work.id, visibility⟩]
  curation_unique := by simp
  workTag_tag := by simp
  workSourceTag_tag := by simp
  assetSource_asset := by simp

/-- A query without references. -/
def noReferences : Resolution where
  creator _ := 0
  repo _ := 0
  tag value := value
  url _ := ⟨[], [], [], []⟩

end FilterAscii
