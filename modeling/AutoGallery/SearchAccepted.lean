import AutoGallery.SearchCanonical

/-!
# Accepted queries

What the compilers of filters may rely on: the values of the qualifiers of an
accepted query have passed `_validate_value`, only negatable keys are negated, and
contradictory states are not asked for together.
-/

namespace SearchLanguage

open PyText SourceIdentity

/-- A qualifier as the parser makes them.  A URL that stands alone is normalised by
its provider; all other values come out of `_validate_value`. -/
structure Accepted (R : Runtime) (q : Qualifier) : Prop where
  valid : q.key = .url ∨ ∃ value, validateValue R q.key value = .ok q.value
  negatable : q.negated = true → q.key ∈ negatableKeys

variable {R : Runtime} {q : Qualifier}

theorem accepted_of_reads {raw : Text} {quoted : Bool} (h : Reads R raw (.qualifier q) quoted) :
    Accepted R q := by
  cases h with
  | url hhttp hparse => exact ⟨.inl rfl, fun _ => show Key.url ∈ negatableKeys by decide⟩
  | @qualifier negated key rest value v k _ hhttp hsplit hkey hneg hdecode hvalue =>
    refine ⟨.inr ⟨value, hvalue⟩, ?_⟩
    intro hnegated
    by_contra hmem
    exact hneg ⟨hnegated, hmem⟩


/-- **The qualifiers of an accepted query are accepted.** -/
theorem accepted_of_parse {text : Text} {scope : SearchScope} {query : SearchQuery}
    (h : parseSearchQuery R text scope = .ok query)
    (hq : q ∈ qualifiersOf (query.tokens.map Token.body)) : Accepted R q := by
  obtain ⟨lexemes, _, hlexemes, _, _⟩ := parseSearchQuery_ok h
  obtain ⟨body, hbody, hsome⟩ := List.mem_filterMap.mp hq
  obtain ⟨token, htoken, rfl⟩ := List.mem_map.mp hbody
  obtain ⟨lexeme, _, hread⟩ := exists_of_forall₂ (parseLexemes_ok hlexemes) htoken
  have hreads := readLexeme_ok hread
  cases hcase : token.body with
  | term value =>
    rw [hcase] at hsome
    cases hsome
  | qualifier r =>
    rw [hcase] at hsome hreads
    cases hsome
    exact accepted_of_reads hreads

namespace Accepted

variable {R : Runtime} {q : Qualifier}

theorem is_value (h : Accepted R q) (hkey : q.key = .is) : q.value ∈ isTargets.map Prod.fst := by
  rcases h.valid with hurl | ⟨value, hvalue⟩
  · rw [hkey] at hurl
    cases hurl
  · rw [hkey] at hvalue
    exact knownValue_ok hvalue

theorem identity (h : Accepted R q) (hkey : q.key = .uid ∨ q.key = .pid) :
    ∃ source identity, parseSourceIdentity R.toCaseMap q.value = .ok (source, identity) ∧
      q.value = source ++ '/' :: identity ∧ identity ≠ [] := by
  rcases h.valid with hurl | ⟨value, hvalue⟩
  · rcases hkey with hkey | hkey <;> rw [hkey] at hurl <;> cases hurl
  have hcheck : validateValue R .uid value = .ok q.value := by
    rcases hkey with hkey | hkey <;> rw [hkey] at hvalue <;> exact hvalue
  simp only [validateValue] at hcheck
  cases hid : parseSourceIdentity R.toCaseMap (strip value) with
  | error e =>
    rw [hid] at hcheck
    cases hcheck
  | ok pair =>
    obtain ⟨source, identity⟩ := pair
    rw [hid] at hcheck
    have hvalue' : q.value = source ++ '/' :: identity := (Except.ok.inj hcheck).symm
    refine ⟨source, identity, ?_, hvalue', (parseSourceIdentity_ok hid).2.1⟩
    rw [hvalue']
    exact parseSourceIdentity_idem hid

theorem date (h : Accepted R q) (hkey : q.key = .posted ∨ q.key = .created ∨ q.key = .updated) :
    ∃ parsed, R.fromisoformat (replaceZulu (splitOperator q.value).2) = some parsed := by
  rcases h.valid with hurl | ⟨value, hvalue⟩
  · rcases hkey with hkey | hkey | hkey <;> rw [hkey] at hurl <;> cases hurl
  have hcheck : (parseDate R (strip value)).map (fun _ => strip value) = .ok q.value := by
    rcases hkey with hkey | hkey | hkey <;> rw [hkey] at hvalue <;> exact hvalue
  obtain ⟨u, hdate, hstrip⟩ := map_ok hcheck
  rw [← hstrip]
  exact fromisoformat_of_parseDate hdate

end Accepted

end SearchLanguage
