import AutoGallery.SearchAccepted

/-!
# Editing a query

`compose_search_query` applies one edit of a visual filter to a query: it parses the query,
parses the new qualifier on its own, changes the list of tokens, prints the list and parses the
text.  What the edit should do is said by `documentedEdit`.

The new text gives the edited tokens exactly if every token is read as it is printed
(`Printable`) and the qualifiers that the edit names are accepted as queries of their own
(`StandsAlone`), which `sort:relevance` never is (`composeSearchQuery_iff`).
-/

namespace SearchLanguage

open PyText SourceIdentity List Body

variable {α : Type} {R : Runtime} {scope : SearchScope} {key : Key} {negated : Bool}
  {operation : Operation} {text keyText : Text} {sq : SearchQuery} {probe : Option Token}
  {q : Qualifier} {result : SearchQuery}

/-- The edits. -/
inductive Operation
  | set | add | toggle | remove | replaceGroup
deriving DecidableEq

inductive ComposeError
  | query (e : QueryError)
  | valueError (message : Text)
  | indexError
deriving DecidableEq

section Composing

/-- `f"{'-' if negated else ''}{normalized_key}:{_canonical_value(value)}"`. -/
def probeText (key : Key) (negated : Bool) (value : Text) : Text :=
  qualifierStart ⟨key, value, negated⟩ ++ canonicalValue value

/-- `parse_search_query(raw_probe, scope).qualifiers[0]`. -/
def parseProbe (R : Runtime) (scope : SearchScope) (key : Key) (negated : Bool) (value : Text) :
    Except ComposeError Token :=
  match parseSearchQuery R (probeText key negated value) scope with
  | .error e => .error (.query e)
  | .ok query =>
    match query.tokens.find? fun t => t.body.qualifier?.isSome with
    | none => .error .indexError
    | some t => .ok t

/-- The token is a qualifier with this property. -/
def Token.isQualifier (p : Qualifier → Bool) (t : Token) : Bool :=
  t.body.qualifier?.any p

/-- The token is a qualifier with key, value and polarity of the probe. -/
def Token.sameAs (probe t : Token) : Bool :=
  t.isQualifier fun q => probe.body.qualifier? = some q

/-- The token list of each operation.  There is a probe if and only if there is a value. -/
def composeTokens (operation : Operation) (key : Key) (negated : Bool) (probe : Option Token)
    (normalizedValues : List Text) (existing : List Token) : Except ComposeError (List Token) :=
  match operation with
  | .set =>
    .ok (existing.filter (fun t => !t.isQualifier fun q => q.key = key && q.negated = negated) ++
      probe.toList)
  | .add =>
    match probe with
    | none => .ok existing
    | some p => .ok (if existing.any p.sameAs then existing else existing ++ [p])
  | .toggle =>
    match probe with
    | none => .error (.valueError "toggle requires a value".toList)
    | some p =>
      .ok (if existing.any p.sameAs then existing.eraseP p.sameAs else existing ++ [p])
  | .remove =>
    match probe.bind fun p => p.body.qualifier? with
    | none => .ok (existing.filter fun t => !t.isQualifier fun q => q.key = key)
    | some p =>
      .ok (existing.filter fun t => !t.isQualifier fun q =>
        q.key = key && q.value = p.value && q.negated = negated)
  | .replaceGroup =>
    .ok (existing.filter (fun t => !t.isQualifier fun q =>
      q.key = key && q.value ∈ normalizedValues && q.negated = negated) ++ probe.toList)

/-- The probe of an edit, if it has a value. -/
def parseValue (R : Runtime) (scope : SearchScope) (key : Key) (negated : Bool) :
    Option Text → Except ComposeError (Option Token)
  | none => .ok none
  | some value => (parseProbe R scope key negated value).map some

/-- `normalized_values`.  Only `replace-group` looks at `replace_values`. -/
def parseGroup (R : Runtime) (scope : SearchScope) (key : Key) (operation : Operation)
    (replaceValues : List Text) : Except ComposeError (List Text) :=
  if operation = .replaceGroup then
    replaceValues.mapM fun item => (parseProbe R scope key false item).map fun t =>
      (t.body.qualifier?.map Qualifier.value).getD []
  else .ok []

/-- `compose_search_query`. -/
def composeSearchQuery (R : Runtime) (query : Text) (scope : SearchScope) (key : Text)
    (value : Option Text) (operation : Operation) (negated : Bool) (replaceValues : List Text) :
    Except ComposeError SearchQuery :=
  match parseSearchQuery R query scope with
  | .error e => .error (.query e)
  | .ok parsed =>
    match Key.ofText (R.lower key) with
    | none => .error (.valueError ("Unknown search qualifier: ".toList ++ key))
    | some k =>
      match parseValue R scope k negated value with
      | .error e => .error e
      | .ok probe =>
        match parseGroup R scope k operation replaceValues with
        | .error e => .error e
        | .ok normalizedValues =>
          match composeTokens operation k negated probe normalizedValues parsed.tokens with
          | .error e => .error e
          | .ok existing =>
            match parseSearchQuery R (canonicalText existing) scope with
            | .error e => .error (.query e)
            | .ok result => .ok result

end Composing

/-! ### What an edit should do -/

section Documented

/-- The qualifier that an edit names, with its value normalised. -/
def newQualifier (R : Runtime) (key : Key) (negated : Bool) : Option Text →
    Option (Option Qualifier)
  | none => some none
  | some value => (validateValue R key value).toOption.map fun v => some ⟨key, v, negated⟩

/-- The values that `replace-group` names, normalised. -/
def groupValues (R : Runtime) (key : Key) (operation : Operation) (replaceValues : List Text) :
    Option (List Text) :=
  if operation = .replaceGroup then (replaceValues.mapM (validateValue R key)).toOption
  else some []

/-- The edit takes this token away. -/
def addresses (operation : Operation) (key : Key) (negated : Bool) (new : Option Qualifier)
    (group : List Text) (body : Body) : Bool :=
  body.qualifier?.any fun q =>
    match operation, new with
    | .set, _ => q.key = key && q.negated = negated
    | .add, _ => false
    | .toggle, new => new = some q
    | .remove, none => q.key = key
    | .remove, some new => q = new
    | .replaceGroup, _ => q.key = key && q.value ∈ group && q.negated = negated

/-- The tokens that an edit leaves.  `toggle` takes one away only. -/
def keptTokens (operation : Operation) (key : Key) (negated : Bool) (new : Option Qualifier)
    (group : List Text) (body : α → Body) (tokens : List α) : List α :=
  if operation = .toggle then
    tokens.eraseP fun t => addresses operation key negated new group (body t)
  else tokens.filter fun t => !addresses operation key negated new group (body t)

/-- The qualifier that an edit adds. -/
def addedQualifier (operation : Operation) (new : Option Qualifier) (bodies : List Body) :
    Option Qualifier :=
  match operation with
  | .set | .replaceGroup => new
  | .add | .toggle => new.filter fun q => .qualifier q ∉ bodies
  | .remove => none

/-- **The documented edit**: the addressed qualifiers are removed, then the new one is appended
where the operation adds one. -/
def documentedEdit (R : Runtime) (operation : Operation) (key : Key) (negated : Bool)
    (value : Option Text) (replaceValues : List Text) (bodies : List Body) : Option (List Body) := do
  let new ← newQualifier R key negated value
  let group ← groupValues R key operation replaceValues
  if operation = .toggle ∧ new = none then none
  else
    some (keptTokens operation key negated new group id bodies ++
      ((addedQualifier operation new bodies).map qualifier).toList)

/-- The tokens make up a valid query for the scope. -/
def ValidTokens (R : Runtime) (scope : SearchScope) (bodies : List Body) : Prop :=
  (∀ q, .qualifier q ∈ bodies → q.negated = true → q.key ∈ negatableKeys) ∧
    ∃ targets, checkQuery R bodies scope = .ok targets

/-- The qualifier is accepted as a query of its own. -/
def StandsAlone (R : Runtime) (scope : SearchScope) (key : Key) (negated : Bool) (value : Text) :
    Prop :=
  ∃ query, parseSearchQuery R (probeText key negated value) scope = .ok query

end Documented

/-! ### The edit of the code -/

section Edits

theorem closed_probeText (key : Key) (negated : Bool) (value : Text) :
    Closed (probeText key negated value) := by
  exact closed_canonicalValue (plain_qualifierStart ⟨key, value, negated⟩) value

/-- What a query that is a single qualifier consists of. -/
theorem parse_probe {value : Text} {query : SearchQuery}
    (h : parseSearchQuery R (probeText key negated value) scope = .ok query) :
    ∃ t v, query.tokens = [t] ∧ validateValue R key value = .ok v ∧
      t.body = .qualifier ⟨key, v, negated⟩ ∧ FromLexeme R t := by
  obtain ⟨lexemes, hlex, htokens, -, -⟩ := parseSearchQuery_ok h
  have hclosed := closed_probeText key negated value
  rw [lex_alone hclosed] at hlex
  cases hlex
  have hread := parseLexemes_ok htokens
  cases htokens' : query.tokens with
  | nil =>
    rw [htokens'] at hread
    cases hread
  | cons t rest =>
    rw [htokens'] at hread
    cases hread with
    | cons hfirst hrest =>
      cases hrest
      have hagain := hfirst
      unfold probeText at hagain
      rw [readLexeme_start] at hagain
      obtain ⟨k, decoded, v, hkey, -, hdecode, hvalue, hbody⟩ := readQualifier_ok hagain
      rw [Key.ofText_text] at hkey
      cases hkey
      rw [decodeValue_canonicalValue] at hdecode
      split at hdecode
      · cases hdecode
      · rw [← (Prod.mk.inj (Except.ok.inj hdecode)).1] at hvalue
        exact ⟨t, v, rfl, hvalue, hbody, probeText key negated value, hclosed, hfirst⟩

variable {t : Token} {value : Option Text} {replaceValues : List Text} {body : Body}
  {bodies edited : List Body}

theorem parseProbe_ok {value : Text} (h : parseProbe R scope key negated value = .ok t) :
    StandsAlone R scope key negated value ∧ FromLexeme R t ∧
      ∃ v, validateValue R key value = .ok v ∧ t.body = .qualifier ⟨key, v, negated⟩ := by
  unfold parseProbe at h
  split at h
  next => cases h
  rename_i query hquery
  obtain ⟨t', v, htokens, hvalue, hbody, hfrom⟩ := parse_probe hquery
  rw [htokens] at h
  simp only [find?_cons, hbody, qualifier?, Option.isSome_some, Except.ok.injEq] at h
  subst h
  exact ⟨⟨query, hquery⟩, hfrom, v, hvalue, hbody⟩

theorem exists_parseProbe {value : Text} (h : StandsAlone R scope key negated value) :
    ∃ t, parseProbe R scope key negated value = .ok t := by
  obtain ⟨query, hquery⟩ := h
  obtain ⟨t, v, htokens, -, hbody, -⟩ := parse_probe hquery
  refine ⟨t, ?_⟩
  unfold parseProbe
  rw [hquery]
  simp only [htokens, find?_cons, hbody, qualifier?, Option.isSome_some]

/-- The probe of an edit is the new qualifier. -/
theorem parseValue_ok (h : parseValue R scope key negated value = .ok probe) :
    (∀ v, value = some v → StandsAlone R scope key negated v) ∧
      (∀ t, probe = some t → FromLexeme R t) ∧
      ∃ new, newQualifier R key negated value = some new ∧
        probe.map Token.body = new.map qualifier ∧
        ∀ q, new = some q → q.key = key ∧ q.negated = negated := by
  cases value with
  | none =>
    cases h
    refine ⟨?_, ?_, none, rfl, rfl, ?_⟩ <;> rintro _ ⟨⟩
  | some value =>
    obtain ⟨t, hprobe, rfl⟩ := map_ok h
    obtain ⟨halone, hfrom, v, hvalue, hbody⟩ := parseProbe_ok hprobe
    refine ⟨?_, ?_, some ⟨key, v, negated⟩, ?_, ?_, ?_⟩
    · rintro _ ⟨⟩
      exact halone
    · rintro _ ⟨⟩
      exact hfrom
    · simp [newQualifier, hvalue, Except.toOption]
    · simp [hbody]
    · rintro _ ⟨⟩
      exact ⟨rfl, rfl⟩

theorem exists_parseValue (h : ∀ v, value = some v → StandsAlone R scope key negated v) :
    ∃ probe, parseValue R scope key negated value = .ok probe := by
  cases value with
  | none => exact ⟨none, rfl⟩
  | some value =>
    obtain ⟨t, ht⟩ := exists_parseProbe (h value rfl)
    refine ⟨some t, ?_⟩
    simp only [parseValue, ht]
    rfl

/-- The values that `replace-group` takes away. -/
theorem parseGroup_ok {group : List Text}
    (h : parseGroup R scope key operation replaceValues = .ok group) :
    (operation = .replaceGroup → ∀ v ∈ replaceValues, StandsAlone R scope key false v) ∧
      groupValues R key operation replaceValues = some group := by
  unfold parseGroup at h
  unfold groupValues
  split at h
  next hreplace =>
    rw [if_pos hreplace]
    have hall : (∀ v ∈ replaceValues, StandsAlone R scope key false v) ∧
        replaceValues.mapM (validateValue R key) = .ok group := by
      induction replaceValues generalizing group with
      | nil =>
        cases h
        exact ⟨nofun, rfl⟩
      | cons item rest ih =>
        rw [mapM_cons] at h
        obtain ⟨_, hfirst, h⟩ := bind_ok h
        obtain ⟨values, hrest, hcons⟩ := bind_ok h
        cases hcons
        obtain ⟨t, hprobe, rfl⟩ := map_ok hfirst
        obtain ⟨halone, -, v, hvalue, hbody⟩ := parseProbe_ok hprobe
        obtain ⟨hothers, hvalues⟩ := ih hrest
        refine ⟨forall_mem_cons.mpr ⟨halone, hothers⟩, ?_⟩
        rw [mapM_cons, hvalue, hvalues]
        simp only [hbody]
        rfl
    refine ⟨fun _ => hall.1, ?_⟩
    rw [hall.2]
    rfl
  next hreplace =>
    cases h
    rw [if_neg hreplace]
    exact ⟨fun heq => absurd heq hreplace, rfl⟩

theorem exists_parseGroup
    (h : operation = .replaceGroup → ∀ v ∈ replaceValues, StandsAlone R scope key false v) :
    ∃ group, parseGroup R scope key operation replaceValues = .ok group := by
  unfold parseGroup
  split
  next hreplace =>
    have hall := h hreplace
    clear h
    induction replaceValues with
    | nil => exact ⟨[], rfl⟩
    | cons item rest ih =>
      obtain ⟨halone, hothers⟩ := forall_mem_cons.mp hall
      obtain ⟨t, ht⟩ := exists_parseProbe halone
      obtain ⟨values, hvalues⟩ := ih hothers
      refine ⟨(t.body.qualifier?.map Qualifier.value).getD [] :: values, ?_⟩
      rw [mapM_cons, ht, hvalues]
      rfl
  next => exact ⟨[], rfl⟩

variable {new : Option Qualifier} {group : List Text} {existing : List Token}

theorem sameAs_iff {p : Token} (hp : p.body = .qualifier q) :
    p.sameAs t = true ↔ t.body = .qualifier q := by
  unfold Token.sameAs Token.isQualifier
  rw [hp]
  cases t.body with
  | term value => simp [qualifier?]
  | qualifier r => simp [qualifier?, eq_comm]

theorem addresses_toggle_iff :
    addresses .toggle key negated (some q) group body = true ↔ body = .qualifier q := by
  unfold addresses
  cases body with
  | term value => simp [qualifier?]
  | qualifier r => simp [qualifier?, eq_comm]

variable (existing) in
theorem any_sameAs_iff {p : Token} {q : Qualifier} (hp : p.body = .qualifier q) :
    existing.any p.sameAs = true ↔ .qualifier q ∈ existing.map Token.body := by
  simp only [any_eq_true, mem_map, sameAs_iff hp]

/-- **The edit of the code is the documented one**, on the tokens of the query and the probe. -/
theorem composeTokens_eq (hprobe : probe.map Token.body = new.map qualifier)
    (hnew : ∀ q, new = some q → q.key = key ∧ q.negated = negated)
    (htoggle : ¬(operation = .toggle ∧ new = none)) :
    composeTokens operation key negated probe group existing =
      .ok (keptTokens operation key negated new group Token.body existing ++
        if (addedQualifier operation new (existing.map Token.body)).isSome then probe.toList
        else []) := by
  cases new with
  | none =>
    have hnone : probe = none := Option.map_eq_none_iff.mp hprobe
    subst hnone
    cases operation with
    | toggle => exact absurd ⟨rfl, rfl⟩ htoggle
    | set | remove | replaceGroup | add =>
      simp [composeTokens, keptTokens, addresses, addedQualifier, Token.isQualifier]
  | some q =>
    obtain ⟨p, rfl, hp⟩ := Option.map_eq_some_iff.mp hprobe
    obtain ⟨hkey, hneg⟩ := hnew q rfl
    cases operation with
    | set | replaceGroup =>
      simp [composeTokens, keptTokens, addresses, addedQualifier, Token.isQualifier]
    | remove =>
      have hsame : ∀ r : Qualifier, (decide (r.key = key) && decide (r.value = q.value) &&
          decide (r.negated = negated)) = decide (r = q) := by
        rintro ⟨rkey, rvalue, rnegated⟩
        obtain ⟨qkey, qvalue, qnegated⟩ := q
        simp only at hkey hneg
        subst hkey hneg
        simp [Bool.and_assoc]
      simp [composeTokens, keptTokens, addresses, addedQualifier, Token.isQualifier, hp,
        qualifier?, hsame]
    | add =>
      have hany := any_sameAs_iff existing hp
      by_cases hmem : .qualifier q ∈ existing.map Token.body
      · simp [composeTokens, keptTokens, addresses, addedQualifier, hany.mpr hmem, hmem, -mem_map]
      · simp [composeTokens, keptTokens, addresses, addedQualifier, mt hany.mp hmem, hmem, -mem_map]
    | toggle =>
      have hany := any_sameAs_iff existing hp
      have herase : existing.eraseP p.sameAs =
          existing.eraseP fun t => addresses .toggle key negated (some q) group t.body := by
        congr 1
        funext t
        rw [Bool.eq_iff_iff, sameAs_iff hp, addresses_toggle_iff]
      by_cases hmem : .qualifier q ∈ existing.map Token.body
      · simp [composeTokens, keptTokens, addedQualifier, hany.mpr hmem, hmem, herase, -mem_map]
      have hnot : existing.eraseP (fun t =>
          addresses .toggle key negated (some q) group t.body) = existing := by
        apply eraseP_of_forall_not
        intro t ht haddressed
        exact hmem (mem_map.mpr ⟨t, ht, addresses_toggle_iff.mp haddressed⟩)
      simp [composeTokens, keptTokens, addedQualifier, mt hany.mp hmem, hmem, hnot, -mem_map]

theorem map_keptTokens :
    (keptTokens operation key negated new group Token.body existing).map Token.body =
      keptTokens operation key negated new group id (existing.map Token.body) := by
  unfold keptTokens
  split
  · rw [eraseP_map]
    rfl
  · rw [filter_map]
    rfl

theorem mem_of_mem_keptTokens
    (h : t ∈ keptTokens operation key negated new group Token.body existing) : t ∈ existing := by
  unfold keptTokens at h
  split at h
  · exact mem_of_mem_eraseP h
  · exact mem_of_mem_filter h

variable (R scope operation) in
/-- The edit can be carried out by printing and parsing: what it names is accepted alone, and
what it leaves and adds is read as it is printed. -/
structure Readable (key : Key)
    (negated : Bool) (value : Option Text) (replaceValues : List Text) (tokens : List Token) :
    Prop where
  alone : ∀ v, value = some v → StandsAlone R scope key negated v
  groupAlone : operation = .replaceGroup → ∀ v ∈ replaceValues, StandsAlone R scope key false v
  kept : ∀ new group, newQualifier R key negated value = some new →
    groupValues R key operation replaceValues = some group →
      ∀ t ∈ keptTokens operation key negated new group Token.body tokens, Printable R t
  added : ∀ new q, newQualifier R key negated value = some new →
    addedQualifier operation new (tokens.map Token.body) = some q → q.value ≠ []

theorem documentedEdit_eq_some
    (h : documentedEdit R operation key negated value replaceValues bodies = some edited) :
    ∃ new group, newQualifier R key negated value = some new ∧
      groupValues R key operation replaceValues = some group ∧
      ¬(operation = .toggle ∧ new = none) ∧
      edited = keptTokens operation key negated new group id bodies ++
        ((addedQualifier operation new bodies).map qualifier).toList := by
  unfold documentedEdit at h
  obtain ⟨new, hnew, h⟩ := Option.bind_eq_some_iff.mp h
  obtain ⟨group, hgroup, h⟩ := Option.bind_eq_some_iff.mp h
  split at h
  next => cases h
  next htoggle =>
    cases h
    exact ⟨new, group, hnew, hgroup, htoggle, rfl⟩

/-- An edit adds the new qualifier or nothing. -/
theorem addedQualifier_eq_some (h : addedQualifier operation new bodies = some q) :
    new = some q := by
  cases operation with
  | set | replaceGroup => exact h
  | remove => cases h
  | add | toggle => exact (Option.filter_eq_some_iff.mp h).1

/-- The tokens of the edited query. -/
def editedTokens (operation : Operation) (key : Key) (negated : Bool) (new : Option Qualifier)
    (group : List Text) (probe : Option Token) (existing : List Token) : List Token :=
  keptTokens operation key negated new group Token.body existing ++
    if (addedQualifier operation new (existing.map Token.body)).isSome then probe.toList else []

theorem map_editedTokens (hprobe : probe.map Token.body = new.map qualifier) :
    (editedTokens operation key negated new group probe existing).map Token.body =
      keptTokens operation key negated new group id (existing.map Token.body) ++
        ((addedQualifier operation new (existing.map Token.body)).map qualifier).toList := by
  unfold editedTokens
  rw [map_append, map_keptTokens]
  congr 1
  cases hadded : addedQualifier operation new (existing.map Token.body) with
  | none => rfl
  | some q =>
    cases addedQualifier_eq_some hadded
    obtain ⟨p, rfl, hp⟩ := Option.map_eq_some_iff.mp hprobe
    simp [hp]

/-- All edited tokens are printable exactly if those that are kept are, and the new qualifier
has a value. -/
theorem printable_editedTokens (hprobe : probe.map Token.body = new.map qualifier) :
    (∀ t ∈ editedTokens operation key negated new group probe existing, Printable R t) ↔
      (∀ t ∈ keptTokens operation key negated new group Token.body existing, Printable R t) ∧
        ∀ q, addedQualifier operation new (existing.map Token.body) = some q → q.value ≠ [] := by
  unfold editedTokens
  rw [forall_mem_append]
  apply and_congr_right
  intro _
  cases hadded : addedQualifier operation new (existing.map Token.body) with
  | none => simp
  | some q =>
    cases addedQualifier_eq_some hadded
    obtain ⟨p, rfl, hp⟩ := Option.map_eq_some_iff.mp hprobe
    simp [Printable, hp]

/-- What a successful edit consists of. -/
theorem composeSearchQuery_ok_iff (hparse : parseSearchQuery R text scope = .ok sq)
    (hkey : Key.ofText (R.lower keyText) = some key) :
    composeSearchQuery R text scope keyText value operation negated replaceValues = .ok result ↔
      ∃ probe group existing, parseValue R scope key negated value = .ok probe ∧
        parseGroup R scope key operation replaceValues = .ok group ∧
        composeTokens operation key negated probe group sq.tokens = .ok existing ∧
        parseSearchQuery R (canonicalText existing) scope = .ok result := by
  unfold composeSearchQuery
  simp only [hparse, hkey]
  constructor
  · intro h
    split at h
    next => cases h
    rename_i probe hprobe
    split at h
    next => cases h
    rename_i group hgroup
    split at h
    next => cases h
    rename_i existing hexisting
    split at h
    next => cases h
    next again hagain =>
      cases h
      exact ⟨probe, group, existing, hprobe, hgroup, hexisting, hagain⟩
  · rintro ⟨probe, group, existing, hprobe, hgroup, hexisting, hagain⟩
    simp only [hprobe, hgroup, hexisting, hagain]

theorem fromLexeme_editedTokens (hparse : parseSearchQuery R text scope = .ok sq)
    (hprobe : ∀ t, probe = some t → FromLexeme R t) :
    ∀ t ∈ editedTokens operation key negated new group probe sq.tokens, FromLexeme R t := by
  intro t ht
  unfold editedTokens at ht
  rcases mem_append.mp ht with hkept | hadded
  · exact fromLexeme_of_parse hparse (mem_of_mem_keptTokens hkept)
  · split at hadded
    · exact hprobe t (Option.mem_toList.mp hadded)
    · cases hadded

/-- **Printing and parsing carries the documented edit out exactly if it is readable.** -/
theorem compose_exact_iff (hurl : Normalises R.toUrlRuntime)
    (hparse : parseSearchQuery R text scope = .ok sq)
    (hkey : Key.ofText (R.lower keyText) = some key)
    (hedit : documentedEdit R operation key negated value replaceValues
      (sq.tokens.map Token.body) = some edited) (hvalid : ValidTokens R scope edited) :
    (∃ result, composeSearchQuery R text scope keyText value operation negated replaceValues =
        .ok result ∧ result.tokens.map Token.body = edited) ↔
      Readable R scope operation key negated value replaceValues sq.tokens := by
  obtain ⟨new, group, hnew, hgroup, htoggle, rfl⟩ := documentedEdit_eq_some hedit
  constructor
  · rintro ⟨result, hresult, hbodies⟩
    obtain ⟨probe, group', existing, hprobe, hgroup', hexisting, hagain⟩ :=
      (composeSearchQuery_ok_iff hparse hkey).mp hresult
    obtain ⟨halone, hfrom, new', hnew', hmap, hown⟩ := parseValue_ok hprobe
    cases hnew.symm.trans hnew'
    obtain ⟨hgroupAlone, hsame⟩ := parseGroup_ok hgroup'
    cases hgroup.symm.trans hsame
    rw [composeTokens_eq hmap hown htoggle] at hexisting
    cases hexisting
    rw [← map_editedTokens hmap] at hbodies
    have hprintable := ((parse_printed_iff hurl (fromLexeme_editedTokens hparse hfrom)).mp
      ⟨result, hagain, hbodies⟩).1
    obtain ⟨hkept, hadded⟩ := (printable_editedTokens hmap).mp hprintable
    refine ⟨halone, hgroupAlone, ?_, ?_⟩
    · intro new'' group'' hnew'' hgroup''
      cases hnew.symm.trans hnew''
      cases hgroup.symm.trans hgroup''
      exact hkept
    · intro new'' q hnew''
      cases hnew.symm.trans hnew''
      exact hadded q
  · intro hreadable
    obtain ⟨probe, hprobe⟩ := exists_parseValue hreadable.alone
    obtain ⟨group', hgroup'⟩ := exists_parseGroup hreadable.groupAlone
    obtain ⟨-, hfrom, new', hnew', hmap, hown⟩ := parseValue_ok hprobe
    cases hnew.symm.trans hnew'
    obtain ⟨-, hsame⟩ := parseGroup_ok hgroup'
    cases hgroup.symm.trans hsame
    have hprintable := (printable_editedTokens hmap).mpr
      ⟨hreadable.kept new group hnew hgroup, fun q => hreadable.added new q hnew⟩
    rw [← map_editedTokens hmap] at hvalid ⊢
    obtain ⟨result, hagain, hbodies⟩ :=
      (parse_printed_iff hurl (fromLexeme_editedTokens hparse hfrom)).mpr ⟨hprintable, hvalid.2⟩
    refine ⟨result, (composeSearchQuery_ok_iff hparse hkey).mpr ?_, hbodies⟩
    exact ⟨probe, group, _, hprobe, hgroup', composeTokens_eq hmap hown htoggle, hagain⟩

/-- Free text, and qualifiers of other keys. -/
def ofOtherKey (key : Key) (body : Body) : Bool :=
  !body.qualifier?.any fun q => q.key = key

/-- An edit only takes away qualifiers of its key. -/
theorem key_of_addresses (hnew : ∀ q, new = some q → q.key = key)
    (h : addresses operation key negated new group body = true) : ofOtherKey key body = false := by
  unfold addresses at h
  unfold ofOtherKey
  cases body with
  | term value => cases h
  | qualifier q =>
    have hkey : q.key = key := by
      cases operation with
      | set | replaceGroup => simp_all [qualifier?]
      | add => simp [qualifier?] at h
      | toggle => exact hnew q (by simpa [qualifier?] using h)
      | remove =>
        cases new with
        | none => simpa [qualifier?] using h
        | some r =>
          have hsame : q = r := by simpa [qualifier?] using h
          exact hsame ▸ hnew r rfl
    simp [qualifier?, hkey]

theorem filter_eraseP_of_disjoint {p r : α → Bool} (h : ∀ x, p x = true → r x = false) (l : List α) :
    (l.eraseP p).filter r = l.filter r := by
  induction l with
  | nil => rfl
  | cons x rest ih =>
    by_cases hp : p x = true
    · rw [eraseP_cons_of_pos hp, filter_cons_of_neg (by rw [h x hp]; decide)]
    · rw [eraseP_cons_of_neg hp, filter_cons, filter_cons, ih]

/-- **The frame of an edit**: free text and qualifiers of other keys stay as they are. -/
theorem filter_documentedEdit
    (h : documentedEdit R operation key negated value replaceValues bodies = some edited) :
    edited.filter (ofOtherKey key) = bodies.filter (ofOtherKey key) := by
  obtain ⟨new, group, hnew, -, -, rfl⟩ := documentedEdit_eq_some h
  have hown : ∀ q, new = some q → q.key = key := by
    rintro q rfl
    cases value with
    | none => cases hnew
    | some value =>
      obtain ⟨v, -, hq⟩ := Option.map_eq_some_iff.mp hnew
      cases hq
      rfl
  have hadded : (((addedQualifier operation new bodies).map qualifier).toList).filter
      (ofOtherKey key) = [] := by
    cases hadd : addedQualifier operation new bodies with
    | none => rfl
    | some q =>
      have hkey := hown q (addedQualifier_eq_some hadd)
      simp [ofOtherKey, qualifier?, hkey]
  have hkept : (keptTokens operation key negated new group id bodies).filter (ofOtherKey key) =
      bodies.filter (ofOtherKey key) := by
    unfold keptTokens
    split
    · exact filter_eraseP_of_disjoint (fun body hbody => key_of_addresses hown hbody) bodies
    rw [filter_filter]
    apply filter_congr
    intro body _
    cases haddressed : addresses operation key negated new group body with
    | false => simp [haddressed]
    | true => simp [haddressed, key_of_addresses hown haddressed]
  rw [filter_append, hkept, hadded, append_nil]

end Edits

/-! ### Toggling twice -/

section Toggling

/-- What `toggle` makes of a list of tokens. -/
def toggled (q : Qualifier) (bodies : List Body) : List Body :=
  if .qualifier q ∈ bodies then bodies.erase (.qualifier q) else bodies ++ [.qualifier q]

theorem toggled_eq (q : Qualifier) (group : List Text) (bodies : List Body) :
    keptTokens .toggle key negated (some q) group id bodies ++
      ((addedQualifier .toggle (some q) bodies).map qualifier).toList = toggled q bodies := by
  have herase : bodies.eraseP (fun t => addresses .toggle key negated (some q) group (id t)) =
      bodies.erase (.qualifier q) := by
    rw [erase_eq_eraseP]
    congr 1
    funext body
    rw [Bool.eq_iff_iff, id, addresses_toggle_iff, beq_iff_eq]
    exact eq_comm
  unfold keptTokens toggled addedQualifier
  rw [if_pos rfl, herase]
  by_cases hmem : .qualifier q ∈ bodies
  · simp [hmem]
  · simp [hmem, erase_of_not_mem hmem]

/-- Toggling twice gives the same tokens exactly if the qualifier occurs at most once. -/
theorem toggled_toggled_perm_iff (q : Qualifier) (bodies : List Body) :
    (toggled q (toggled q bodies)).Perm bodies ↔ bodies.count (.qualifier q) ≤ 1 := by
  unfold toggled
  by_cases hmem : .qualifier q ∈ bodies
  · rw [if_pos hmem]
    have hcount : bodies.count (.qualifier q) = (bodies.erase (.qualifier q)).count (.qualifier q) + 1 := by
      have hpos := count_pos_iff.mpr hmem
      rw [count_erase_self]
      omega
    by_cases hagain : .qualifier q ∈ bodies.erase (.qualifier q)
    · -- two are gone
      rw [if_pos hagain]
      have hlen := length_erase_of_mem hmem
      have hlen' := length_erase_of_mem hagain
      have hpos : 0 < bodies.length := length_pos_of_mem hmem
      have htwo := count_pos_iff.mpr hagain
      constructor
      · intro hperm
        have := hperm.length_eq
        omega
      · intro hle
        omega
    · rw [if_neg hagain]
      have hzero := count_eq_zero.mpr hagain
      constructor
      · intro _
        omega
      · intro _
        exact (perm_append_singleton _ _).trans (perm_cons_erase hmem).symm
  · rw [if_neg hmem, if_pos (by simp), erase_append_right _ hmem]
    have hzero := count_eq_zero.mpr hmem
    simp [hzero]

variable {value v : Text}

section

variable (hurl : Normalises R.toUrlRuntime) (hparse : parseSearchQuery R text scope = .ok sq)
  (hkey : Key.ofText (R.lower keyText) = some key) (hvalue : validateValue R key value = .ok v)
  (hne : v ≠ []) (hprintable : ∀ t ∈ sq.tokens, Printable R t)
include hurl hparse hkey hvalue hne hprintable

/-- One toggle of a query whose tokens are printable. -/
theorem compose_toggle
    (h : composeSearchQuery R text scope keyText (some value) .toggle negated [] = .ok result) :
    result.tokens.map Token.body = toggled ⟨key, v, negated⟩ (sq.tokens.map Token.body) ∧
      ∀ t ∈ result.tokens, Printable R t := by
  obtain ⟨probe, group, existing, hprobe, -, hexisting, hagain⟩ :=
    (composeSearchQuery_ok_iff hparse hkey).mp h
  obtain ⟨-, hfrom, new, hnew, hmap, hown⟩ := parseValue_ok hprobe
  have hsame : new = some ⟨key, v, negated⟩ := by
    simpa [newQualifier, hvalue, Except.toOption, eq_comm] using hnew
  subst hsame
  rw [composeTokens_eq hmap hown (by simp)] at hexisting
  cases hexisting
  have hedited : ∀ t ∈ editedTokens .toggle key negated (some ⟨key, v, negated⟩) group probe
      sq.tokens, Printable R t := by
    refine (printable_editedTokens hmap).mpr ⟨fun t ht => ?_, fun q hq => ?_⟩
    · exact hprintable t (mem_of_mem_keptTokens ht)
    · cases addedQualifier_eq_some hq
      exact hne
  obtain ⟨hbodies, -, hprints⟩ :=
    parse_printed hurl (fromLexeme_editedTokens hparse hfrom) hedited hagain
  rw [map_editedTokens hmap, toggled_eq] at hbodies
  exact ⟨hbodies, hprints⟩

theorem compose_toggle_twice {once twice : SearchQuery}
    (honce : composeSearchQuery R text scope keyText (some value) .toggle negated [] = .ok once)
    (htwice : composeSearchQuery R once.canonical scope keyText (some value) .toggle negated [] =
      .ok twice) :
    (twice.tokens.map Token.body).Perm (sq.tokens.map Token.body) ↔
      (sq.tokens.map Token.body).count (.qualifier ⟨key, v, negated⟩) ≤ 1 := by
  obtain ⟨hbodies, hprints⟩ := compose_toggle hurl hparse hkey hvalue hne hprintable honce
  -- the second edit reads the canonical text of the first result
  obtain ⟨probe, group, existing, -, -, -, hagain⟩ :=
    (composeSearchQuery_ok_iff hparse hkey).mp honce
  obtain ⟨_, -, -, -, hcanonical⟩ := parseSearchQuery_ok hagain
  cases hsecond : parseSearchQuery R once.canonical scope with
  | error e =>
    unfold composeSearchQuery at htwice
    rw [hsecond] at htwice
    cases htwice
  | ok sq' =>
    have hfrom : ∀ t ∈ once.tokens, FromLexeme R t := fun t ht => fromLexeme_of_parse hagain ht
    have htext := hsecond
    rw [hcanonical] at htext
    obtain ⟨hbodies', -, hprints'⟩ := parse_printed hurl hfrom hprints htext
    obtain ⟨hlast, -⟩ := compose_toggle hurl hsecond hkey hvalue hne hprints' htwice
    rw [hlast, hbodies', hbodies]
    exact toggled_toggled_perm_iff _ _

end

end Toggling

section Queries

end Queries

end SearchLanguage
