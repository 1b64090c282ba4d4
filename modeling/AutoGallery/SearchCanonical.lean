import AutoGallery.SearchAscii

/-!
# Reading a canonical query again

The canonical text of a query is what cursors and cached totals are keyed by, so
it should be read as the query it came from.  It is printed token by token; each
printed token is one closed piece (`closed_canonicalToken`), so the question is
whether a single printed token is read as the token.

For qualifiers it is, unless stripping has emptied the value: the printer then
writes `key:""`, which is refused.  For free text it is, unless a quoted term
loses its quotes and the bare word means something else: an operator, a group, a
URL or a qualifier.  `reprintable` tests a lexeme of the query for these two
cases, and the query is read back exactly when all its lexemes pass
(`parseSearchQuery_canonical_iff`).
-/

namespace SearchLanguage

open PyText SourceIdentity List

variable {R : Runtime} {v : Text} {body : Body} {quoted : Bool} {raw : Text} {t : Token}

section Words

theorem Key.plain (key : Key) : plainLower key.text = true := by
  cases key <;> decide

theorem Key.noColon (key : Key) {c : Char} (hc : c ∈ key.text) :
    c ≠ '"' ∧ c ≠ ':' ∧ c ≠ '：' ∧ c ≠ '-' := by
  have hall : key.text.all (fun c => c ≠ '"' && c ≠ ':' && c ≠ '：' && c ≠ '-') = true := by
    cases key <;> decide
  simpa [and_assoc] using all_eq_true.mp hall c hc

theorem Key.keyRe_text (key : Key) : keyRe key.text = true := by
  cases key <;> decide

theorem Key.ofText_text (key : Key) : Key.ofText key.text = some key := by
  cases key <;> decide

theorem Key.text_ne_nil (key : Key) : key.text ≠ [] := by
  cases key <;> decide

/-- No key starts like a URL. -/
theorem Key.start (key : Key) :
    ((key.text.take 2).map Char.toLower ≠ "http".toList.take (key.text.take 2).length) ∧
      (key.text.take 2).length ≤ 4 := by
  cases key <;> decide

theorem Key.isHttp_false (M : CaseMap) (key : Key) (t : Text) :
    isHttp M (key.text ++ t) = false := by
  have hsplit : key.text ++ t = key.text.take 2 ++ (key.text.drop 2 ++ t) := by
    rw [← append_assoc, take_append_drop]
  rw [hsplit]
  exact isHttp_false_of_start _ (fun c hc => ascii_of_plainLower key.plain c (mem_of_mem_take hc))
    key.start.2 key.start.1

end Words

section Qualifiers

/-- The URL test does not stop a text that starts with a key. -/
theorem parseSourceUrl_key (R : Runtime) (key : Key) (t : Text) :
    parseSourceUrl R.toUrlRuntime (key.text ++ t) = .ok none := by
  obtain ⟨rest, hrest⟩ := strip_append key.text_ne_nil (noSpace_of_plainLower key.plain) t
  apply parseSourceUrl_notHttp
  rw [hrest]
  exact key.isHttp_false _ rest

theorem startswith_dash_start (q : Qualifier) (t : Text) :
    startswith (qualifierStart q ++ t) ['-'] = q.negated := by
  obtain ⟨c, tail, hc⟩ := exists_cons_of_ne_nil q.key.text_ne_nil
  have hdash : c ≠ '-' := (q.key.noColon (by simp [hc])).2.2.2
  unfold qualifierStart startswith
  cases q.negated with
  | true => simp [isPrefixOf]
  | false => simp [hc, isPrefixOf, hdash.symm]

theorem dropDash_start (q : Qualifier) (t : Text) :
    dropDash (qualifierStart q ++ t) = q.key.text ++ ':' :: t := by
  unfold dropDash
  rw [startswith_dash_start]
  unfold qualifierStart
  cases q.negated <;> simp

theorem splitQualifier_start (R : Runtime) (q : Qualifier) (t : Text) :
    splitQualifier R (qualifierStart q ++ t) = some (q.negated, q.key.text, t) := by
  have hplain : ∀ c ∈ (if q.negated then ['-'] else []) ++ q.key.text,
      c ≠ '"' ∧ c ≠ ':' ∧ c ≠ '：' := by
    intro c hc
    rcases mem_append.mp hc with hc | hc
    · rw [mem_singleton.mp (mem_ite_nil_right.mp hc).2]
      decide
    · obtain ⟨h1, h2, h3, -⟩ := q.key.noColon hc
      exact ⟨h1, h2, h3⟩
  have hcolon := findColonFrom_plain hplain 0 t
  have htext : (if q.negated then ['-'] else []) ++ q.key.text ++ ':' :: t =
      qualifierStart q ++ t := by
    simp [qualifierStart]
  have hpos : 0 < q.key.text.length := length_pos_iff.mpr q.key.text_ne_nil
  rw [htext, Nat.zero_add] at hcolon
  unfold splitQualifier
  simp only [startswith_dash_start, findColon, hcolon]
  unfold qualifierStart
  cases q.negated with
  | true | false =>
    simp [hpos, lower_plainLower q.key.plain _, q.key.keyRe_text]

/-- A printed qualifier is recognised as one. -/
theorem readLexeme_start (R : Runtime) (q : Qualifier) (t : Text) :
    readLexeme R (qualifierStart q ++ t) = readQualifier R q.negated q.key.text t := by
  unfold readLexeme
  rw [dropDash_start, parseSourceUrl_key]
  simp only [q.key.isHttp_false, splitQualifier_start]
  rfl

end Qualifiers

section Values

/-- The value tables hold plain words, and no type is an alias. -/
theorem tables_plain :
    (∀ v ∈ isTargets.map Prod.fst, plainLower v = true ∧ v ≠ []) ∧
    (∀ v ∈ hasTargets.map Prod.fst, plainLower v = true ∧ v ≠ []) ∧
    (∀ v ∈ sortTargets.map Prod.fst, plainLower v = true ∧ v ≠ []) ∧
    (∀ v ∈ taskStatuses, plainLower v = true ∧ v ≠ []) ∧
    (∀ v ∈ taskKinds, plainLower v = true ∧ v ≠ []) ∧
    (∀ v ∈ typeTargets.map Prod.fst,
      plainLower v = true ∧ v ≠ [] ∧ typeAliases.lookup v = none) := by
  refine ⟨?_, ?_, ?_, ?_, ?_, ?_⟩ <;> decide

variable {complaint value : Text} {values : List Text} {key : Key}

theorem knownValue_ok (h : knownValue R complaint values value = .ok v) : v ∈ values := by
  unfold knownValue at h
  simp only at h
  split at h
  next hmem =>
    cases h
    exact hmem
  · cases h

theorem knownValue_plain (R : Runtime) (complaint : Text) (hv : v ∈ values)
    (hplain : plainLower v = true) : knownValue R complaint values v = .ok v := by
  unfold knownValue
  simp only [strip_plainLower hplain, lower_plainLower hplain _, if_pos hv]

theorem parseDate_ok (h : parseDate R value = .ok ()) : value ≠ [] := by
  rintro rfl
  cases h

/-- The date of an accepted value is a valid one. -/
theorem fromisoformat_of_parseDate {u : Unit} (h : parseDate R value = .ok u) :
    ∃ parsed, R.fromisoformat (replaceZulu (splitOperator value).2) = some parsed := by
  unfold parseDate at h
  split at h
  · cases h
  rename_i date hdate
  have hcut : date = (splitOperator value).2 := by
    unfold dateRe at hdate
    simp only at hdate
    split at hdate
    · split at hdate
      · cases hdate
        rfl
      · cases hdate
    · cases hdate
  split at h
  · cases h
  next parsed hparsed =>
    rw [hcut] at hparsed
    exact ⟨parsed, hparsed⟩

/-- The keys whose values are only stripped, so that nothing may remain. -/
def strippedKeys : List Key :=
  [.repo, .creator, .tag, .source]

/-- What `_validate_value` has made of a value: validating again changes nothing,
and nothing is left only of white space under a stripped key. -/
structure Settled (R : Runtime) (key : Key) (value v : Text) : Prop where
  again : validateValue R key v = .ok v
  nil_iff : v = [] ↔ key ∈ strippedKeys ∧ strip value = []

theorem Settled.of_ne_nil (hkey : key ∉ strippedKeys) (hv : v ≠ [])
    (hagain : validateValue R key v = .ok v) : Settled R key value v :=
  ⟨hagain, fun hnil => absurd hnil hv, fun hk => absurd hk.1 hkey⟩

/-- Values from a table. -/
theorem settled_known
    (hcheck : ∀ w, validateValue R key w = knownValue R complaint values w)
    (hkey : key ∉ strippedKeys) (hplain : ∀ w ∈ values, plainLower w = true ∧ w ≠ [])
    (h : validateValue R key value = .ok v) : Settled R key value v := by
  rw [hcheck] at h
  have hmem := knownValue_ok h
  obtain ⟨hlower, hne⟩ := hplain v hmem
  refine .of_ne_nil hkey hne ?_
  rw [hcheck]
  exact knownValue_plain R complaint hmem hlower

theorem settled_type (h : validateValue R .type value = .ok v) : Settled R .type value v := by
  simp only [validateValue] at h
  split at h
  next hmem =>
    cases h
    obtain ⟨hplain, hne, halias⟩ := tables_plain.2.2.2.2.2 _ hmem
    refine .of_ne_nil (by decide) hne ?_
    simp only [validateValue, strip_plainLower hplain, lower_plainLower hplain _, halias, Option.getD_none,
      if_pos hmem]
  · cases h

theorem settled_date
    (hcheck : ∀ w, validateValue R key w = (parseDate R (strip w)).map fun _ => strip w)
    (hkey : key ∉ strippedKeys) (h : validateValue R key value = .ok v) :
    Settled R key value v := by
  rw [hcheck] at h
  obtain ⟨_, hparse, rfl⟩ := map_ok h
  refine .of_ne_nil hkey (parseDate_ok hparse) ?_
  have hstrip : strip (strip value) = strip value := stripped_strip value
  rw [hcheck, hstrip, hparse]
  rfl

theorem settled_identity (hcheck : ∀ w, validateValue R key w = validateValue R .uid w)
    (hkey : key ∉ strippedKeys) (h : validateValue R key value = .ok v) : Settled R key value v := by
  rw [hcheck] at h
  simp only [validateValue] at h
  cases hid : parseSourceIdentity R.toCaseMap (strip value) with
  | error e =>
    rw [hid] at h
    cases h
  | ok pair =>
    obtain ⟨source, identity⟩ := pair
    rw [hid] at h
    cases h
    obtain ⟨hsource, -, hspace⟩ := parseSourceIdentity_ok hid
    have hstrip : strip (source ++ '/' :: identity) = source ++ '/' :: identity :=
      stripped_identity hsource hspace
    refine .of_ne_nil hkey (by simp) ?_
    rw [hcheck]
    simp only [validateValue, hstrip, parseSourceIdentity_idem hid]

theorem settled_source (h : validateValue R .source value = .ok v) : Settled R .source value v := by
  simp only [validateValue, Except.ok.injEq] at h
  by_cases htwitter : R.lower (strip value) = "twitter".toList
  · have hx : plainLower "x".toList = true := by decide
    rw [if_pos htwitter] at h
    subst h
    refine ⟨?_, ⟨nofun, ?_⟩⟩
    · simp only [validateValue, strip_plainLower hx, lower_plainLower hx _]
      rfl
    · rintro ⟨-, hnil⟩
      rw [hnil, R.lower_ascii [] (by simp)] at htwitter
      cases htwitter
  · have hstrip : strip (R.lower (strip value)) = R.lower (strip value) :=
      R.lower_stripped _ (stripped_strip value)
    rw [if_neg htwitter] at h
    subst h
    refine ⟨?_, ⟨fun hnil => ⟨by decide, R.lower_eq_nil _ hnil⟩, ?_⟩⟩
    · simp only [validateValue, hstrip, R.lower_lower, if_neg htwitter]
    · rintro ⟨-, hnil⟩
      rw [hnil]
      exact R.lower_ascii [] (by simp)

theorem settled_url (hurl : Normalises R.toUrlRuntime) (h : validateValue R .url value = .ok v) :
    Settled R .url value v := by
  simp only [validateValue, urlValue] at h
  cases hparse : parseSourceUrl R.toUrlRuntime (strip value) with
  | error e =>
    rw [hparse] at h
    cases h
  | ok parsed =>
    cases parsed with
    | none =>
      rw [hparse] at h
      cases h
    | some url =>
      rw [hparse] at h
      cases h
      have hagain := hurl _ _ hparse
      refine .of_ne_nil (by decide) (ne_nil_of_parseSourceUrl hagain) ?_
      simp only [validateValue, urlValue, parseSourceUrl_strip, hagain]

theorem settled_strip (hcheck : ∀ w, validateValue R key w = .ok (strip w))
    (hkey : key ∈ strippedKeys) (h : validateValue R key value = .ok v) : Settled R key value v := by
  rw [hcheck] at h
  cases h
  refine ⟨?_, ⟨fun hnil => ⟨hkey, hnil⟩, fun hnil => hnil.2⟩⟩
  rw [hcheck]
  exact congrArg _ (stripped_strip value)

/-- **Validation settles.** -/
theorem validateValue_settled (hurl : Normalises R.toUrlRuntime)
    (h : validateValue R key value = .ok v) : Settled R key value v := by
  obtain ⟨his, hhas, hsort, hstatus, hkind, -⟩ := tables_plain
  cases key with
  | type => exact settled_type h
  | is => exact settled_known (fun _ => rfl) (by decide) his h
  | has => exact settled_known (fun _ => rfl) (by decide) hhas h
  | sort => exact settled_known (fun _ => rfl) (by decide) hsort h
  | status => exact settled_known (fun _ => rfl) (by decide) hstatus h
  | kind => exact settled_known (fun _ => rfl) (by decide) hkind h
  | posted | created | updated | synced => exact settled_date (fun _ => rfl) (by decide) h
  | source => exact settled_source h
  | uid | pid => exact settled_identity (fun _ => rfl) (by decide) h
  | url => exact settled_url hurl h
  | repo | creator | tag => exact settled_strip (fun _ => rfl) (by decide) h

end Values

section Lexemes

/-- A bare word that the parser does not take as free text. -/
def readsOtherwise (R : Runtime) (value : Text) : Bool :=
  isHttp R.toCaseMap (dropDash value) || (splitQualifier R value).isSome ||
    R.upper value = "OR".toList || '(' ∈ value || ')' ∈ value

/-- The test on a lexeme of the query: a quoted term must not lose its quotes
when the bare word means something else, and the value of a stripped key must not
be white space only. -/
def reprintable (R : Runtime) (raw : Text) : Bool :=
  if isHttp R.toCaseMap (dropDash raw) then true
  else
    match splitQualifier R raw with
    | some (_, key, rest) =>
      match Key.ofText key, decodeValue rest with
      | some k, .ok (value, _) => !(k ∈ strippedKeys && strip value = [])
      | _, _ => true
    | none =>
      match decodeValue raw with
      | .ok (value, true) => !(bareValue value && readsOtherwise R value)
      | _ => true

/-- The three ways in which a lexeme is accepted: as a URL, as a qualifier, or as
free text. -/
inductive Reads (R : Runtime) (raw : Text) : Body → Bool → Prop
  | url {url : ParsedSourceUrl} (hhttp : isHttp R.toCaseMap (dropDash raw) = true)
      (hparse : parseSourceUrl R.toUrlRuntime (dropDash raw) = .ok (some url)) :
      Reads R raw (.qualifier ⟨.url, url.normalizedUrl, startswith raw ['-']⟩) true
  | qualifier {negated : Bool} {key rest value v : Text} {k : Key} {quoted : Bool}
      (hhttp : isHttp R.toCaseMap (dropDash raw) = false)
      (hsplit : splitQualifier R raw = some (negated, key, rest)) (hkey : Key.ofText key = some k)
      (hneg : ¬(negated = true ∧ k ∉ negatableKeys))
      (hdecode : decodeValue rest = .ok (value, quoted)) (hvalue : validateValue R k value = .ok v) :
      Reads R raw (.qualifier ⟨k, v, negated⟩) quoted
  | term {value : Text} {quoted : Bool} (hhttp : isHttp R.toCaseMap (dropDash raw) = false)
      (hsplit : splitQualifier R raw = none) (hdecode : decodeValue raw = .ok (value, quoted))
      (hword : quoted = false → R.upper value ≠ "OR".toList ∧ '(' ∉ value ∧ ')' ∉ value) :
      Reads R raw (.term value) quoted

theorem readQualifier_ok {negated : Bool} {key rest : Text}
    (h : readQualifier R negated key rest = .ok (body, quoted)) :
    ∃ k value v, Key.ofText key = some k ∧ ¬(negated = true ∧ k ∉ negatableKeys) ∧
      decodeValue rest = .ok (value, quoted) ∧ validateValue R k value = .ok v ∧
      body = .qualifier ⟨k, v, negated⟩ := by
  unfold readQualifier at h
  split at h
  · cases h
  rename_i k hkey
  split at h
  · cases h
  rename_i hneg
  split at h
  · cases h
  rename_i value q hdecode
  obtain ⟨v, hvalue, heq⟩ := map_ok h
  cases heq
  exact ⟨k, value, v, hkey, hneg, hdecode, hvalue, rfl⟩

theorem readTerm_ok (h : readTerm R raw = .ok (body, quoted)) :
    ∃ value, decodeValue raw = .ok (value, quoted) ∧ body = .term value ∧
      (quoted = false → R.upper value ≠ "OR".toList ∧ '(' ∉ value ∧ ')' ∉ value) := by
  unfold readTerm at h
  split at h
  · cases h
  rename_i value q hdecode
  split at h
  · cases h
  rename_i hor
  split at h
  · cases h
  next hgroup =>
    cases h
    refine ⟨value, hdecode, rfl, fun hq => ⟨fun hup => hor ⟨hq, hup⟩, ?_, ?_⟩⟩
    · exact fun hmem => hgroup ⟨hq, .inl hmem⟩
    · exact fun hmem => hgroup ⟨hq, .inr hmem⟩

/-- **What an accepted lexeme is.** -/
theorem readLexeme_ok (h : readLexeme R raw = .ok (body, quoted)) : Reads R raw body quoted := by
  unfold readLexeme at h
  split at h
  · cases h
  rename_i parsed hparse
  split at h
  next hhttp =>
    cases parsed with
    | none => cases h
    | some url =>
      cases h
      exact .url hhttp hparse
  next hhttp =>
    have hno : isHttp R.toCaseMap (dropDash raw) = false := by simpa using hhttp
    split at h
    · rename_i negated key rest hsplit
      obtain ⟨k, value, v, hkey, hneg, hdecode, hvalue, rfl⟩ := readQualifier_ok h
      exact .qualifier hno hsplit hkey hneg hdecode hvalue
    · rename_i hsplit
      obtain ⟨value, hdecode, rfl, hword⟩ := readTerm_ok h
      exact .term hno hsplit hdecode hword

end Lexemes

section Reprinting

variable {q : Qualifier}

theorem escape_bare (h : bareValue v = true) : escape v = v := by
  have hall := (bareValue_iff.mp h).2
  clear h
  induction v with
  | nil => rfl
  | cons c tail ih =>
    obtain ⟨hplain, hback⟩ := hall c mem_cons_self
    rw [escape_cons, if_neg hback, if_neg (plainChar_iff.mp hplain).2, ih fun d hd => hall d (mem_cons_of_mem _ hd)]
    rfl


theorem any_isspace_of_plain (h : ∀ c ∈ v, plainChar c = true) : v.any isspace = false := by
  rw [any_eq_false]
  intro c hc
  simp [(plainChar_iff.mp (h c hc)).1]

/-- A value is printed bare or in quotes. -/
theorem printedValue_cases (q : Qualifier) :
    (printedValue q = q.value ∧ bareValue q.value = true) ∨ printedValue q = quote q.value := by
  unfold printedValue canonicalValue
  by_cases hbare : bareValue q.value = true
  · have hplain := fun c hc => ((bareValue_iff.mp hbare).2 c hc).1
    simp only [if_pos hbare, startswith_quote_of_noQuote (noQuote_of_plain hplain)]
    by_cases hkey : q.key = .url
    · right
      simp [hkey, quote, escape_bare hbare]
    · left
      simp [hkey, hbare]
  · right
    have hstart : startswith (quote q.value) ['"'] = true := by
      simp [startswith, quote, isPrefixOf]
    simp only [if_neg hbare, hstart]
    simp

theorem plain_qualifierStart (q : Qualifier) : ∀ c ∈ qualifierStart q, plainChar c = true := by
  intro c hc
  unfold qualifierStart at hc
  rcases mem_append.mp hc with hc | hc
  · rcases mem_append.mp hc with hc | hc
    · rw [mem_singleton.mp (mem_ite_nil_right.mp hc).2]
      decide
    · simp [plainChar, noSpace_of_plainLower q.key.plain c hc, (q.key.noColon hc).1]
  · rw [mem_singleton.mp hc]
    decide

theorem closed_printed (q : Qualifier) : Closed (qualifierStart q ++ printedValue q) := by
  rcases printedValue_cases q with ⟨hprinted, hbare⟩ | hprinted
  · rw [hprinted]
    apply closed_of_plain (by simp [qualifierStart])
    intro c hc
    rcases mem_append.mp hc with hc | hc
    · exact plain_qualifierStart q c hc
    · exact ((bareValue_iff.mp hbare).2 c hc).1
  · rw [hprinted]
    exact closed_quote (plain_qualifierStart q) q.value

/-- A settled qualifier is read as it was printed. -/
theorem readLexeme_printed (hneg : ¬(q.negated = true ∧ q.key ∉ negatableKeys))
    (hagain : validateValue R q.key q.value = .ok q.value) (hne : q.value ≠ []) :
    ∃ quoted, readLexeme R (qualifierStart q ++ printedValue q) = .ok (.qualifier q, quoted) := by
  have hdecode : ∃ quoted, decodeValue (printedValue q) = .ok (q.value, quoted) := by
    rcases printedValue_cases q with ⟨hprinted, hbare⟩ | hprinted
    · rw [hprinted]
      have hplain := fun c hc => ((bareValue_iff.mp hbare).2 c hc).1
      exact ⟨false, decodeValue_noQuote hne (noQuote_of_plain hplain)⟩
    · rw [hprinted]
      exact ⟨true, decodeValue_quote hne⟩
  obtain ⟨quoted, hdecode⟩ := hdecode
  refine ⟨quoted, ?_⟩
  rw [readLexeme_start, readQualifier, q.key.ofText_text]
  simp only [if_neg hneg, hdecode, hagain]
  rfl

/-- Nothing in quotes is refused. -/
theorem readLexeme_printed_nil (hnil : q.value = []) (body : Body) (quoted : Bool) :
    readLexeme R (qualifierStart q ++ printedValue q) ≠ .ok (body, quoted) := by
  intro h
  have hprinted : printedValue q = quote [] := by
    rcases printedValue_cases q with ⟨-, hbare⟩ | hprinted
    · rw [hnil] at hbare
      cases hbare
    · rw [hprinted, hnil]
  rw [readLexeme_start, hprinted] at h
  obtain ⟨k, value, v, -, -, hdecode, -⟩ := readQualifier_ok h
  rw [decodeValue_quote_nil] at hdecode
  cases hdecode

theorem dropDash_plain (h : ∀ c ∈ v, plainChar c = true) : strip (dropDash v) = dropDash v := by
  apply stripped_of_noSpace
  intro c hc
  have hmem : c ∈ v := by
    unfold dropDash at hc
    split at hc
    · exact mem_of_mem_tail hc
    · exact hc
  exact (plainChar_iff.mp (h c hmem)).1

/-- A bare word is read as free text exactly when it does not mean something
else. -/
theorem readLexeme_bare (R : Runtime) (hne : v ≠ []) (h : ∀ c ∈ v, plainChar c = true)
    (quoted : Bool) :
    readLexeme R v = .ok (.term v, quoted) ↔ readsOtherwise R v = false ∧ quoted = false := by
  have hdecode : decodeValue v = .ok (v, false) := decodeValue_noQuote hne (noQuote_of_plain h)
  constructor
  · intro hread
    cases readLexeme_ok hread with
    | term hhttp hsplit hd hword =>
      rw [hdecode] at hd
      cases hd
      obtain ⟨hor, hopen, hclose⟩ := hword rfl
      refine ⟨?_, rfl⟩
      unfold readsOtherwise
      rw [hhttp, hsplit, decide_eq_false hor, decide_eq_false hopen, decide_eq_false hclose]
      rfl
  · rintro ⟨hother, rfl⟩
    simp only [readsOtherwise, Bool.or_eq_false_iff, decide_eq_false_iff_not,
      Option.isSome_eq_false_iff, Option.isNone_iff_eq_none] at hother
    obtain ⟨⟨⟨⟨hhttp, hsplit⟩, hor⟩, hopen⟩, hclose⟩ := hother
    have hurl : parseSourceUrl R.toUrlRuntime (dropDash v) = .ok none := by
      apply parseSourceUrl_notHttp
      rw [dropDash_plain h]
      exact hhttp
    have hterm : readTerm R v = .ok (.term v, false) := by
      unfold readTerm
      rw [hdecode]
      simp only
      rw [if_neg (fun hc => hor hc.2), if_neg (fun hc => hc.2.elim hopen hclose)]
    unfold readLexeme
    rw [hurl]
    simp only [hhttp, hsplit]
    exact hterm

/-- A quoted text is read as free text. -/
theorem readLexeme_quote (R : Runtime) (hne : v ≠ []) :
    readLexeme R (quote v) = .ok (.term v, true) := by
  have hdash : dropDash (quote v) = quote v := by
    simp [dropDash, startswith, quote, isPrefixOf]
  have hhttp : ∀ t, isHttp R.toCaseMap (['"'] ++ t) = false :=
    fun t => isHttp_false_of_start t (by simp) (by decide) (by decide)
  have hstrip : strip (quote v) = quote v := by
    rw [show strip (quote v) = quote v ↔ Stripped (quote v) from Iff.rfl, stripped_iff]
    constructor
    · intro c hc
      cases hc
      decide
    intro c hc
    have hlast : (quote v).getLast? = some '"' := by
      exact getLast?_concat
    rw [hlast] at hc
    cases hc
    decide
  have hurl : parseSourceUrl R.toUrlRuntime (quote v) = .ok none := by
    apply parseSourceUrl_notHttp
    rw [hstrip]
    exact hhttp _
  have hsplit : splitQualifier R (quote v) = none := by
    simp [splitQualifier, findColon_quote]
  unfold readLexeme
  rw [hdash, hurl]
  simp only [show isHttp R.toCaseMap (quote v) = false from hhttp _, hsplit]
  simp [readTerm, decodeValue_quote hne]

/-- A term is printed in quotes when it needs them, and as it is otherwise. -/
theorem canonicalToken_term (hclosed : Closed raw) (hdecode : decodeValue raw = .ok (v, quoted)) :
    (canonicalToken (.term v) quoted = quote v ∧ bareValue v = false ∧ quoted = true) ∨
    (canonicalToken (.term v) quoted = v ∧ (∀ c ∈ v, plainChar c = true) ∧
      (quoted = true → bareValue v = true) ∧ (quoted = false → v = raw)) := by
  cases quoted with
  | true =>
    have hprint : canonicalToken (.term v) true = canonicalValue v := by simp [canonicalToken]
    rw [hprint]
    by_cases hbare : bareValue v = true
    · right
      exact ⟨if_pos hbare, fun c hc => ((bareValue_iff.mp hbare).2 c hc).1, fun _ => hbare,
        nofun⟩
    · left
      exact ⟨if_neg hbare, by simpa using hbare, rfl⟩
  | false =>
    right
    obtain ⟨rfl, -, hquote⟩ := decodeValue_unquoted hdecode
    have hplain := hclosed.plain_of_noQuote hquote
    exact ⟨by simp [canonicalToken, any_isspace_of_plain hplain], hplain, nofun, fun _ => rfl⟩

/-- Printed tokens are closed pieces. -/
theorem closed_canonicalToken (hclosed : Closed raw) (h : Reads R raw body quoted) :
    Closed (canonicalToken body quoted) := by
  cases h with
  | url _ _ | qualifier => exact closed_printed _
  | @term value quoted hhttp hsplit hdecode hword =>
    rcases canonicalToken_term hclosed hdecode with ⟨hprint, -⟩ | ⟨hprint, hplain, -⟩
    · rw [hprint]
      exact closed_quote (a := []) (by simp) value
    · rw [hprint]
      exact closed_of_plain (decodeValue_ne_nil hdecode) hplain

/-- The token is read as it is printed: a quoted word without its quotes is still a word, and a
qualifier has a value. -/
def Printable (R : Runtime) (t : Token) : Prop :=
  match t.body with
  | .term value => t.quoted = true → bareValue value = true → readsOtherwise R value = false
  | .qualifier q => q.value ≠ []

/-- The token stands in some query. -/
def FromLexeme (R : Runtime) (t : Token) : Prop :=
  ∃ raw, Closed raw ∧ readLexeme R raw = .ok (t.body, t.quoted)

variable {t' : Token}

theorem FromLexeme.closed (h : FromLexeme R t) : Closed (canonicalToken t.body t.quoted) := by
  obtain ⟨raw, hclosed, hread⟩ := h
  exact closed_canonicalToken hclosed (readLexeme_ok hread)

/-- A printable token is read again as the same token. -/
theorem FromLexeme.reread (hurl : Normalises R.toUrlRuntime) (h : FromLexeme R t)
    (hprintable : Printable R t) :
    ∃ quoted, readLexeme R (canonicalToken t.body t.quoted) = .ok (t.body, quoted) ∧
      canonicalToken t.body quoted = canonicalToken t.body t.quoted := by
  obtain ⟨raw, hclosed, hread⟩ := h
  obtain ⟨body, quoted, start, stop⟩ := t
  cases readLexeme_ok hread with
  | @url url hhttp hparse =>
    have hagain := hurl _ _ hparse
    have hvalue : validateValue R .url url.normalizedUrl = .ok url.normalizedUrl := by
      simp only [validateValue, urlValue, parseSourceUrl_strip, hagain]
    have hneg : ¬(startswith raw ['-'] = true ∧ Key.url ∉ negatableKeys) :=
      fun hneg => hneg.2 (by decide)
    obtain ⟨quoted', hq⟩ := readLexeme_printed
      (q := ⟨.url, url.normalizedUrl, startswith raw ['-']⟩) hneg hvalue hprintable
    exact ⟨quoted', hq, rfl⟩
  | @qualifier negated key rest value v k quoted hhttp hsplit hkey hneg hdecode hvalue =>
    obtain ⟨quoted', hq⟩ := readLexeme_printed (q := ⟨k, v, negated⟩) hneg
      (validateValue_settled hurl hvalue).again hprintable
    exact ⟨quoted', hq, rfl⟩
  | @term value quoted hhttp hsplit hdecode hword =>
    dsimp only at hread hprintable ⊢
    have hne := decodeValue_ne_nil hdecode
    rcases canonicalToken_term hclosed hdecode with
      ⟨hprint, hbare, hq⟩ | ⟨hprint, hplain, hquoted, hraw⟩
    · subst hq
      rw [hprint]
      exact ⟨true, readLexeme_quote R hne, hprint⟩
    rw [hprint]
    have hspace : canonicalToken (.term value) false = value := by
      simp [canonicalToken, any_isspace_of_plain hplain]
    refine ⟨false, ?_, hspace⟩
    cases quoted with
    | true =>
      rw [readLexeme_bare R hne hplain]
      exact ⟨hprintable rfl (hquoted rfl), rfl⟩
    | false =>
      rw [← hraw rfl] at hread
      exact hread

/-- And only a printable one is. -/
theorem FromLexeme.printable (h : FromLexeme R t)
    (hagain : readLexeme R (canonicalToken t.body t.quoted) = .ok (t.body, quoted)) :
    Printable R t := by
  obtain ⟨raw, hclosed, hread⟩ := h
  obtain ⟨body, quoted', start, stop⟩ := t
  cases readLexeme_ok hread with
  | url _ _ | qualifier => exact fun hnil => readLexeme_printed_nil hnil _ _ hagain
  | @term value quoted' hhttp hsplit hdecode hword =>
    rintro rfl hbare
    rcases canonicalToken_term hclosed hdecode with ⟨-, hnot, -⟩ | ⟨hprint, hplain, -⟩
    · rw [hbare] at hnot
      cases hnot
    · dsimp only at hagain
      rw [hprint, readLexeme_bare R (decodeValue_ne_nil hdecode) hplain] at hagain
      exact hagain.1

/-- A printable token comes back from its text, and is printed and printable again. -/
theorem FromLexeme.comes_back (hurl : Normalises R.toUrlRuntime) (h : FromLexeme R t)
    (hprintable : Printable R t)
    (hread : readLexeme R (canonicalToken t.body t.quoted) = .ok (t'.body, t'.quoted)) :
    t'.body = t.body ∧ canonicalToken t'.body t'.quoted = canonicalToken t.body t.quoted ∧
      Printable R t' := by
  obtain ⟨quoted, hagain, hsame⟩ := h.reread hurl hprintable
  rw [hread] at hagain
  obtain ⟨hbody, rfl⟩ := Prod.mk.inj (Except.ok.inj hagain)
  rw [← hbody] at hsame
  have hfrom : FromLexeme R t' := ⟨_, h.closed, hread⟩
  have hprint : canonicalToken t'.body t'.quoted = canonicalToken t.body t.quoted := by
    rw [hsame, hbody]
  exact ⟨hbody, hprint, hfrom.printable (by rw [hprint]; exact hread)⟩

/-- The test on a lexeme is a test on its token. -/
theorem reprintable_iff (hurl : Normalises R.toUrlRuntime) (h : Reads R raw t.body t.quoted) :
    reprintable R raw = true ↔ Printable R t := by
  obtain ⟨body, quoted, start, stop⟩ := t
  cases h with
  | @url url hhttp hparse =>
    have hne := ne_nil_of_parseSourceUrl (hurl _ _ hparse)
    simp [reprintable, hhttp, Printable, hne]
  | @qualifier negated key rest value v k quoted hhttp hsplit hkey hneg hdecode hvalue =>
    have hset := (validateValue_settled hurl hvalue).nil_iff
    simp only [reprintable, hhttp, hsplit, hkey, hdecode, Printable, Ne, hset]
    simp [imp_iff_not_or]
  | @term value quoted hhttp hsplit hdecode hword =>
    cases quoted with
    | false => simp [reprintable, hhttp, hsplit, hdecode, Printable]
    | true => simp [reprintable, hhttp, hsplit, hdecode, Printable, imp_iff_not_or]

end Reprinting

section Queries

variable {lexemes : List Lexeme} {tokens : List Token} {query : Text} {scope : SearchScope}
  {sq : SearchQuery}

theorem parseLexemes_ok (h : parseLexemes R lexemes = .ok tokens) :
    List.Forall₂ (fun l t => readLexeme R l.raw = .ok (t.body, t.quoted)) lexemes tokens := by
  induction lexemes generalizing tokens with
  | nil =>
    cases h
    exact .nil
  | cons l rest ih =>
    unfold parseLexemes at h
    split at h
    · cases h
    rename_i body quoted hread
    obtain ⟨ts, hrest, rfl⟩ := map_ok h
    exact .cons hread (ih hrest)

/-- Reading all lexemes gives a token for each. -/
theorem parseLexemes_of_forall₂ {parts : List (Body × Bool)}
    (h : List.Forall₂ (fun l part => readLexeme R l.raw = .ok part) lexemes parts) :
    ∃ tokens, parseLexemes R lexemes = .ok tokens ∧
      tokens.map (fun t => (t.body, t.quoted)) = parts := by
  induction h with
  | nil => exact ⟨[], rfl, rfl⟩
  | @cons l part rest parts hread _ ih =>
    obtain ⟨tokens, hparse, hmap⟩ := ih
    refine ⟨⟨part.1, part.2, l.start, l.stop⟩ :: tokens, ?_, ?_⟩
    · unfold parseLexemes
      rw [hread, hparse]
      rfl
    · rw [map_cons, hmap]

/-- What an accepted query consists of. -/
theorem parseSearchQuery_ok (h : parseSearchQuery R query scope = .ok sq) :
    ∃ lexemes, lex query = .ok lexemes ∧ parseLexemes R lexemes = .ok sq.tokens ∧
      validateQuery R sq.tokens scope = .ok sq.targets ∧ sq.canonical = canonicalText sq.tokens := by
  unfold parseSearchQuery at h
  split at h
  · cases h
  rename_i lexemes hlex
  split at h
  · cases h
  rename_i tokens htokens
  split at h
  · cases h
  next targets htargets =>
    cases h
    exact ⟨lexemes, hlex, htokens, htargets, rfl⟩

theorem fromLexeme_of_parse (h : parseSearchQuery R query scope = .ok sq) (ht : t ∈ sq.tokens) :
    FromLexeme R t := by
  obtain ⟨lexemes, hlex, htokens, -, -⟩ := parseSearchQuery_ok h
  obtain ⟨l, hl, hread⟩ := exists_of_forall₂ (parseLexemes_ok htokens) ht
  exact ⟨l.raw, lex_closed hlex hl, hread⟩

theorem lex_printed (h : ∀ t ∈ tokens, FromLexeme R t) :
    lex (canonicalText tokens) =
      .ok (placeFrom 0 (tokens.map fun t => canonicalToken t.body t.quoted)) := by
  apply lex_join
  intro w hw
  obtain ⟨t, ht, rfl⟩ := mem_map.mp hw
  exact (h t ht).closed

/-- Tokens that are all read as they are printed. -/
theorem forall₂_printed
    (h : ∀ t ∈ tokens, ∃ quoted,
      readLexeme R (canonicalToken t.body t.quoted) = .ok (t.body, quoted)) :
    ∃ parts : List (Body × Bool), List.Forall₂ (fun w part => readLexeme R w = .ok part)
        (tokens.map fun t => canonicalToken t.body t.quoted) parts ∧
      parts.map Prod.fst = tokens.map Token.body := by
  induction tokens with
  | nil => exact ⟨[], .nil, rfl⟩
  | cons t rest ih =>
    obtain ⟨quoted, hread⟩ := h t mem_cons_self
    obtain ⟨parts, hparts, hbodies⟩ := ih fun u hu => h u (mem_cons_of_mem _ hu)
    refine ⟨(t.body, quoted) :: parts, .cons hread hparts, ?_⟩
    rw [map_cons, map_cons, hbodies]

/-- The tokens of a text that was printed, beside those it was printed from. -/
theorem forall₂_of_parse (hfrom : ∀ t ∈ tokens, FromLexeme R t)
    (h : parseSearchQuery R (canonicalText tokens) scope = .ok sq) :
    Forall₂ (fun t t' => readLexeme R (canonicalToken t.body t.quoted) = .ok (t'.body, t'.quoted))
      tokens sq.tokens := by
  obtain ⟨lexemes, hlex, htokens, -, -⟩ := parseSearchQuery_ok h
  rw [lex_printed hfrom] at hlex
  cases hlex
  have hread : Forall₂ (fun w t => readLexeme R w = .ok (t.body, t.quoted))
      (tokens.map fun t => canonicalToken t.body t.quoted) sq.tokens :=
    forall₂_placeFrom.mp (parseLexemes_ok htokens)
  rwa [forall₂_map_left_iff] at hread

theorem printed_of_forall₂ {again : List Token}
    (h : Forall₂ (fun t t' => readLexeme R (canonicalToken t.body t.quoted) =
      .ok (t'.body, t'.quoted)) tokens again)
    (hbodies : again.map Token.body = tokens.map Token.body) :
    ∀ t ∈ tokens, ∃ quoted,
      readLexeme R (canonicalToken t.body t.quoted) = .ok (t.body, quoted) := by
  induction h with
  | nil => nofun
  | @cons t t' rest again hfirst _ ih =>
    rw [map_cons, map_cons, cons.injEq] at hbodies
    rw [hbodies.1] at hfirst
    exact forall_mem_cons.mpr ⟨⟨t'.quoted, hfirst⟩, ih hbodies.2⟩

/-- The check of a list of tokens looks at their bodies only. -/
theorem validateQuery_ok_iff {targets : List SearchTarget} :
    validateQuery R tokens scope = .ok targets ↔
      checkQuery R (tokens.map Token.body) scope = .ok targets := by
  unfold validateQuery
  split
  next found hfound =>
    rw [hfound]
    constructor <;> rintro ⟨⟩ <;> rfl
  next message hfound =>
    rw [hfound]
    constructor <;> rintro ⟨⟩
  next refusal hfound =>
    rw [hfound]
    constructor <;> rintro ⟨⟩

section

variable (hurl : Normalises R.toUrlRuntime)
include hurl

/-- **Reading a printed list of tokens.**  It gives the tokens exactly if all of them are
printable and the list is a valid query. -/
theorem parse_printed_iff (hfrom : ∀ t ∈ tokens, FromLexeme R t) :
    (∃ result, parseSearchQuery R (canonicalText tokens) scope = .ok result ∧
        result.tokens.map Token.body = tokens.map Token.body) ↔
      (∀ t ∈ tokens, Printable R t) ∧
        ∃ targets, checkQuery R (tokens.map Token.body) scope = .ok targets := by
  constructor
  · rintro ⟨result, hparse, hbodies⟩
    obtain ⟨-, -, -, htargets, -⟩ := parseSearchQuery_ok hparse
    have hread := printed_of_forall₂ (forall₂_of_parse hfrom hparse) hbodies
    refine ⟨fun t ht => ?_, result.targets, ?_⟩
    · obtain ⟨quoted, hagain⟩ := hread t ht
      exact (hfrom t ht).printable hagain
    · rw [← hbodies]
      exact validateQuery_ok_iff.mp htargets
  · rintro ⟨hprintable, targets, htargets⟩
    obtain ⟨parts, hparts, hbodies⟩ := forall₂_printed fun t ht =>
      ((hfrom t ht).reread hurl (hprintable t ht)).imp fun _ => And.left
    have hplaced : Forall₂ (fun l part => readLexeme R l.raw = .ok part)
        (placeFrom 0 (tokens.map fun t => canonicalToken t.body t.quoted)) parts :=
      forall₂_placeFrom.mpr hparts
    obtain ⟨again, hparse, hmap⟩ := parseLexemes_of_forall₂ hplaced
    have hsame : again.map Token.body = tokens.map Token.body := by
      rw [← hbodies, ← hmap, map_map]
      rfl
    have hvalid : validateQuery R again scope = .ok targets := by
      rw [validateQuery_ok_iff, hsame]
      exact htargets
    refine ⟨⟨canonicalText tokens, canonicalText again, scope, again, targets⟩, ?_, hsame⟩
    unfold parseSearchQuery
    rw [lex_printed hfrom]
    simp only [hparse, hvalid]

/-- **Printable tokens come back from their text.** -/
theorem parse_printed (hfrom : ∀ t ∈ tokens, FromLexeme R t)
    (hprintable : ∀ t ∈ tokens, Printable R t)
    (h : parseSearchQuery R (canonicalText tokens) scope = .ok sq) :
    sq.tokens.map Token.body = tokens.map Token.body ∧
      canonicalText sq.tokens = canonicalText tokens ∧ ∀ t ∈ sq.tokens, Printable R t := by
  have hread := forall₂_of_parse hfrom h
  generalize sq.tokens = again at hread ⊢
  suffices hall : again.map Token.body = tokens.map Token.body ∧
      (again.map fun t => canonicalToken t.body t.quoted) =
        (tokens.map fun t => canonicalToken t.body t.quoted) ∧
      ∀ t ∈ again, Printable R t from
    ⟨hall.1, congrArg [' '].intercalate hall.2.1, hall.2.2⟩
  clear h
  induction hread with
  | nil => exact ⟨rfl, rfl, nofun⟩
  | @cons t t' rest again hfirst _ ih =>
    obtain ⟨hfromFirst, hfromRest⟩ := forall_mem_cons.mp hfrom
    obtain ⟨hprintFirst, hprintRest⟩ := forall_mem_cons.mp hprintable
    obtain ⟨hbody, hsame, hprint⟩ := hfromFirst.comes_back hurl hprintFirst hfirst
    obtain ⟨hbodies, htext, hprints⟩ := ih hfromRest hprintRest
    refine ⟨?_, ?_, forall_mem_cons.mpr ⟨hprint, hprints⟩⟩
    · rw [map_cons, map_cons, hbody, hbodies]
    · rw [map_cons, map_cons, hsame, htext]

/-- Every lexeme of the query passes the test. -/
def AllReprintable (R : Runtime) (query : Text) : Prop :=
  ∀ lexemes, lex query = .ok lexemes → ∀ l ∈ lexemes, reprintable R l.raw = true

/-- The lexemes of a query pass the test just if its tokens are printable. -/
theorem allReprintable_iff (h : parseSearchQuery R query scope = .ok sq) :
    AllReprintable R query ↔ ∀ t ∈ sq.tokens, Printable R t := by
  obtain ⟨lexemes, hlex, htokens, -, -⟩ := parseSearchQuery_ok h
  have hread := parseLexemes_ok htokens
  constructor
  · intro hpass t ht
    obtain ⟨l, hl, hlexeme⟩ := exists_of_forall₂ hread ht
    exact (reprintable_iff hurl (readLexeme_ok hlexeme)).mp (hpass lexemes hlex l hl)
  · intro hprintable ls hls l hl
    rw [hlex] at hls
    cases hls
    obtain ⟨t, ht, hlexeme⟩ := exists_of_forall₂ hread.flip hl
    exact (reprintable_iff hurl (readLexeme_ok hlexeme)).mpr (hprintable t ht)

/-- The canonical text of a query whose tokens are printable is accepted with the same
result. -/
theorem parse_canonical (h : parseSearchQuery R query scope = .ok sq)
    (hprintable : ∀ t ∈ sq.tokens, Printable R t) :
    ∃ again, parseSearchQuery R sq.canonical scope = .ok again ∧
      again.canonical = sq.canonical ∧ again.targets = sq.targets ∧
      again.tokens.map Token.body = sq.tokens.map Token.body := by
  obtain ⟨-, -, -, htargets, hcanonical⟩ := parseSearchQuery_ok h
  have hfrom : ∀ t ∈ sq.tokens, FromLexeme R t := fun t ht => fromLexeme_of_parse h ht
  have hcheck := validateQuery_ok_iff.mp htargets
  obtain ⟨again, hagain, hbodies⟩ :=
    (parse_printed_iff hurl hfrom).mpr ⟨hprintable, sq.targets, hcheck⟩
  obtain ⟨-, -, -, htargets', hcanonical'⟩ := parseSearchQuery_ok hagain
  have hcheck' := validateQuery_ok_iff.mp htargets'
  rw [hbodies, hcheck] at hcheck'
  rw [hcanonical]
  exact ⟨again, hagain, hcanonical'.trans (parse_printed hurl hfrom hprintable hagain).2.1,
    (Except.ok.inj hcheck').symm, hbodies⟩

end

end Queries

end SearchLanguage
