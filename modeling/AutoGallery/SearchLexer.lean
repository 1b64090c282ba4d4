import AutoGallery.PyText

/-!
# Lexemes and quoted values of the search language

`_lex` cuts a query at white space outside quotes.  `_decode_value` takes the
quotes off a value and `_canonical_value` puts them back where they are needed.
The lexer is one pass over the characters; its two states are the two loops of
the source.

The main facts: every lexeme is `Closed`, that is, it is read to its end as one
piece wherever it stands; closed pieces joined by single blanks are lexed into
the same pieces (`lex_join`); and a quoted value decodes to the value
(`decodeValue_quote`).
-/

namespace SearchLanguage

open PyText List

inductive DiagnosticCode
  | unclosedQuote | missingValue | invalidQuote | invalidDate | invalidValue | invalidIdentity
  | unsupportedUrl | typeNotAvailable | qualifierNotAvailable | conflictingValues | duplicateSort
  | relevanceRequiresText | noCompatibleType | unknownQualifier | invalidNegation
  | unsupportedOperator | unsupportedGrouping
deriving DecidableEq

def DiagnosticCode.text : DiagnosticCode → String
  | .unclosedQuote => "unclosed_quote"
  | .missingValue => "missing_value"
  | .invalidQuote => "invalid_quote"
  | .invalidDate => "invalid_date"
  | .invalidValue => "invalid_value"
  | .invalidIdentity => "invalid_identity"
  | .unsupportedUrl => "unsupported_url"
  | .typeNotAvailable => "type_not_available"
  | .qualifierNotAvailable => "qualifier_not_available"
  | .conflictingValues => "conflicting_values"
  | .duplicateSort => "duplicate_sort"
  | .relevanceRequiresText => "relevance_requires_text"
  | .noCompatibleType => "no_compatible_type"
  | .unknownQualifier => "unknown_qualifier"
  | .invalidNegation => "invalid_negation"
  | .unsupportedOperator => "unsupported_operator"
  | .unsupportedGrouping => "unsupported_grouping"

/-- `SearchDiagnostic`. -/
structure SearchDiagnostic where
  code : DiagnosticCode
  message : Text
  start : Nat
  stop : Nat
  token : Text
  suggestions : List Text
deriving DecidableEq

/-- `_Lexeme`. -/
structure Lexeme where
  raw : Text
  start : Nat
  stop : Nat
deriving DecidableEq

/-- What is wrong with a lexeme, before its place in the query is added. -/
structure Fault where
  code : DiagnosticCode
  message : Text
  suggestions : List Text
deriving DecidableEq

/-- `_error`. -/
def Fault.at (f : Fault) (lexeme : Lexeme) : SearchDiagnostic :=
  ⟨f.code, f.message, lexeme.start, lexeme.stop, lexeme.raw, f.suggestions⟩

def unclosedQuote : Fault :=
  ⟨.unclosedQuote, "Quoted search value is not closed.".toList, []⟩

def missingValue : Fault :=
  ⟨.missingValue, "Search qualifier requires a value.".toList, []⟩

def invalidQuote : Fault :=
  ⟨.invalidQuote, "Quotes must wrap the complete qualifier value.".toList, []⟩

/-- Where the lexer is: in the loop that skips white space, or in the loop over
the characters of a lexeme. -/
inductive LexState
  | skipping
  | reading (start : Nat) (raw : Text) (quoted escaped : Bool)

/-- `_lex` from position `index` on. -/
def lexFrom : Nat → LexState → Text → Except SearchDiagnostic (List Lexeme)
  | _, .skipping, [] => .ok []
  | index, .reading start raw quoted _, [] =>
    if quoted then .error (unclosedQuote.at ⟨raw, start, index⟩)
    else .ok [⟨raw, start, index⟩]
  | index, .skipping, char :: rest =>
    if isspace char then lexFrom (index + 1) .skipping rest
    else lexFrom (index + 1) (.reading index [char] (char = '"') false) rest
  | index, .reading start raw quoted escaped, char :: rest =>
    if escaped then
      lexFrom (index + 1) (.reading start (raw ++ [char]) quoted false) rest
    else if char = '\\' ∧ quoted then
      lexFrom (index + 1) (.reading start (raw ++ [char]) quoted true) rest
    else if char = '"' then
      lexFrom (index + 1) (.reading start (raw ++ [char]) (!quoted) false) rest
    else if isspace char ∧ ¬quoted then
      (lexFrom (index + 1) .skipping rest).map (⟨raw, start, index⟩ :: ·)
    else
      lexFrom (index + 1) (.reading start (raw ++ [char]) quoted false) rest

/-- `_lex`. -/
def lex (query : Text) : Except SearchDiagnostic (List Lexeme) :=
  lexFrom 0 .skipping query

/-- The loop of `_find_colon`. -/
def findColonFrom : Nat → Bool → Bool → Text → Option Nat
  | _, _, _, [] => none
  | index, quoted, escaped, char :: rest =>
    if escaped then findColonFrom (index + 1) quoted false rest
    else if char = '\\' ∧ quoted then findColonFrom (index + 1) quoted true rest
    else if char = '"' then findColonFrom (index + 1) (!quoted) false rest
    else if (char = ':' ∨ char = '：') ∧ ¬quoted then some index
    else findColonFrom (index + 1) quoted false rest

/-- `_find_colon`; `none` is the source's `-1`. -/
def findColon (value : Text) : Option Nat :=
  findColonFrom 0 false false value

/-- The loop of `_decode_value` with the dangling backslash it adds at the end. -/
def unescape : Bool → Text → Text
  | escaped, [] => if escaped then ['\\'] else []
  | escaped, char :: rest =>
    if escaped then char :: unescape false rest
    else if char = '\\' then unescape true rest
    else char :: unescape false rest

/-- `_decode_value`: the value and whether it was quoted. -/
def decodeValue (raw : Text) : Except Fault (Text × Bool) :=
  if raw = [] then .error missingValue
  else if ¬startswith raw ['"'] then
    if '"' ∈ raw then .error invalidQuote else .ok (raw, false)
  else if raw.length < 2 ∨ ¬endswith raw ['"'] then .error unclosedQuote
  else
    let value := unescape false (raw.tail.dropLast)
    if value = [] then .error missingValue else .ok (value, true)

/-- `value.replace("\\", "\\\\").replace('"', '\\"')`. -/
def escape (value : Text) : Text :=
  replaceChar (replaceChar value '\\' ['\\', '\\']) '"' ['\\', '"']

/-- A value that `_canonical_value` prints as it is. -/
def bareValue (value : Text) : Bool :=
  !(value.isEmpty || value.any isspace || value.any fun char => char = '"' || char = '\\')

/-- `f'"{escaped}"'`. -/
def quote (value : Text) : Text :=
  '"' :: escape value ++ ['"']

/-- `_canonical_value`. -/
def canonicalValue (value : Text) : Text :=
  if bareValue value then value else quote value

section Scanning

/-- The flags of the lexer after the characters of a piece of a lexeme; `none`
when the piece has white space outside quotes. -/
def scan : Bool → Bool → Text → Option (Bool × Bool)
  | quoted, escaped, [] => some (quoted, escaped)
  | quoted, escaped, char :: rest =>
    if escaped then scan quoted false rest
    else if char = '\\' ∧ quoted then scan quoted true rest
    else if char = '"' then scan (!quoted) false rest
    else if isspace char ∧ ¬quoted then none
    else scan quoted false rest

theorem scan_append (quoted escaped : Bool) (a b : Text) :
    scan quoted escaped (a ++ b) =
      (scan quoted escaped a).bind fun flags => scan flags.1 flags.2 b := by
  induction a generalizing quoted escaped with
  | nil => rfl
  | cons char rest ih =>
    simp only [cons_append, scan]
    split
    · exact ih _ _
    split
    · exact ih _ _
    · split
      · exact ih _ _
      · split
        · rfl
        · exact ih _ _

variable {quoted escaped quoted' escaped' : Bool} {index : Nat} {ws : List Text} {start : Nat}
  {raw : Text} {lexemes : List Lexeme}

/-- The lexer reads a piece without white space outside quotes to its end. -/
theorem lexFrom_scan {a : Text} (h : scan quoted escaped a = some (quoted', escaped'))
    (index start : Nat) (raw rest : Text) :
    lexFrom index (.reading start raw quoted escaped) (a ++ rest) =
      lexFrom (index + a.length) (.reading start (raw ++ a) quoted' escaped') rest := by
  induction a generalizing quoted escaped index raw with
  | nil =>
    cases h
    simp
  | cons char tail ih =>
    have hlen : index + (char :: tail).length = index + 1 + tail.length := by
      rw [length_cons]
      omega
    have hraw : raw ++ char :: tail = raw ++ [char] ++ tail := by simp
    rw [hlen, hraw, cons_append, lexFrom]
    simp only [scan] at h
    split at h
    next hesc =>
      rw [if_pos hesc]
      exact ih h _ _
    rename_i hesc
    rw [if_neg hesc]
    split at h
    next hback =>
      rw [if_pos hback]
      exact ih h _ _
    rename_i hback
    rw [if_neg hback]
    split at h
    next hq =>
      rw [if_pos hq]
      exact ih h _ _
    rename_i hq
    rw [if_neg hq]
    split at h
    · cases h
    next hspace =>
      rw [if_neg hspace]
      exact ih h _ _

/-- A text that the lexer reads as one lexeme wherever it stands. -/
structure Closed (w : Text) : Prop where
  ne_nil : w ≠ []
  head : ∀ c ∈ w.head?, isspace c = false
  whole : scan false false w = some (false, false)

/-- The lexer at the beginning of a closed piece. -/
theorem lexFrom_closed {w : Text} (h : Closed w) (index : Nat) (rest : Text) :
    lexFrom index .skipping (w ++ rest) =
      lexFrom (index + w.length) (.reading index w false false) rest := by
  obtain ⟨c, tail, rfl⟩ := exists_cons_of_ne_nil h.ne_nil
  have hc : isspace c = false := h.head c rfl
  have hscan : scan (decide (c = '"')) false tail = some (false, false) := by
    have hs := h.whole
    simp only [scan, hc] at hs
    by_cases hq : c = '"'
    · simpa [hq] using hs
    · simpa [hq] using hs
  have hlen : index + (c :: tail).length = index + 1 + tail.length := by
    rw [length_cons]
    omega
  rw [cons_append, lexFrom, if_neg (by simp [hc]), lexFrom_scan hscan, hlen]
  rfl

/-- The lexemes of closed pieces joined by single blanks. -/
def placeFrom : Nat → List Text → List Lexeme
  | _, [] => []
  | index, w :: rest => ⟨w, index, index + w.length⟩ :: placeFrom (index + w.length + 1) rest

theorem map_raw_placeFrom (index : Nat) (ws : List Text) :
    (placeFrom index ws).map Lexeme.raw = ws := by
  induction ws generalizing index with
  | nil => rfl
  | cons w rest ih => rw [placeFrom, map_cons, ih]

theorem forall₂_placeFrom {β : Type} {P : Text → β → Prop} {parts : List β} :
    List.Forall₂ (fun l part => P l.raw part) (placeFrom index ws) parts ↔
      List.Forall₂ P ws parts := by
  have hmap := forall₂_map_left_iff (R := P) (f := Lexeme.raw) (l := placeFrom index ws)
    (u := parts)
  rw [map_raw_placeFrom] at hmap
  exact hmap.symm

theorem lexFrom_intercalate (h : ∀ w ∈ ws, Closed w) (index : Nat) :
    lexFrom index .skipping ([' '].intercalate ws) = .ok (placeFrom index ws) := by
  induction ws generalizing index with
  | nil => rfl
  | cons w rest ih =>
    have hw := h w mem_cons_self
    have hrest : ∀ v ∈ rest, Closed v := fun v hv => h v (mem_cons_of_mem _ hv)
    cases rest with
    | nil =>
      have hlone : [' '].intercalate [w] = w ++ [] := by simp [intercalate]
      rw [hlone, lexFrom_closed hw, lexFrom]
      rfl
    | cons v vs =>
      have hjoin : [' '].intercalate (w :: v :: vs) = w ++ ' ' :: [' '].intercalate (v :: vs) := by
        simp [intercalate]
      have hblank : isspace ' ' = true := by decide
      rw [hjoin, lexFrom_closed hw, lexFrom]
      simp only [hblank]
      rw [ih hrest]
      rfl

/-- **Joining.**  Closed pieces joined by single blanks are lexed into the same
pieces. -/
theorem lex_join (h : ∀ w ∈ ws, Closed w) : lex ([' '].intercalate ws) = .ok (placeFrom 0 ws) :=
  lexFrom_intercalate h 0

/-- A closed piece alone. -/
theorem lex_alone {w : Text} (h : Closed w) : lex w = .ok [⟨w, 0, w.length⟩] := by
  have hjoin : lex ([' '].intercalate [w]) = .ok (placeFrom 0 [w]) := lex_join (by simpa using h)
  simpa [intercalate, placeFrom] using hjoin

/-- What the lexer knows of the characters it has read: they would be read the
same way elsewhere, and an escape is pending only inside quotes. -/
def LexState.Sound : LexState → Prop
  | .skipping => True
  | .reading _ raw quoted escaped =>
    raw ≠ [] ∧ (∀ c ∈ raw.head?, isspace c = false) ∧
      scan false false raw = some (quoted, escaped) ∧ (escaped = true → quoted = true)

/-- One more character of a lexeme. -/
theorem LexState.Sound.push {char : Char} (h : (LexState.reading start raw quoted escaped).Sound)
    (hstep : scan quoted escaped [char] = some (quoted', escaped'))
    (hesc : escaped' = true → quoted' = true) :
    (LexState.reading start (raw ++ [char]) quoted' escaped').Sound := by
  obtain ⟨hraw, hhead, hscan, -⟩ := h
  refine ⟨by simp, ?_, ?_, hesc⟩
  · rw [head?_append_of_ne_nil _ hraw]
    exact hhead
  · rw [scan_append, hscan]
    exact hstep

theorem LexState.Sound.closed (h : (LexState.reading start raw quoted escaped).Sound)
    (hquoted : quoted = false) : Closed raw := by
  obtain ⟨hraw, hhead, hscan, hesc⟩ := h
  have hescaped : escaped = false := by
    cases escaped with
    | false => rfl
    | true => exact absurd (hesc rfl) (by simp [hquoted])
  rw [hquoted, hescaped] at hscan
  exact ⟨hraw, hhead, hscan⟩

theorem lexFrom_sound {state : LexState} {rest : Text} (hstate : state.Sound)
    (h : lexFrom index state rest = .ok lexemes) : ∀ l ∈ lexemes, Closed l.raw := by
  have hskipping : LexState.skipping.Sound := trivial
  induction rest generalizing index state lexemes with
  | nil =>
    cases state with
    | skipping =>
      cases h
      simp
    | reading start raw quoted escaped =>
      rw [lexFrom] at h
      split at h
      · cases h
      next hquoted =>
        cases h
        intro l hl
        rw [mem_singleton.mp hl]
        exact hstate.closed (by simpa using hquoted)
  | cons char tail ih =>
    cases state with
    | skipping =>
      rw [lexFrom] at h
      split at h
      · exact ih hskipping h
      rename_i hspace
      have hchar : isspace char = false := by simpa using hspace
      have hfirst : (LexState.reading index [char] (char = '"') false).Sound := by
        refine ⟨by simp, by simpa using hchar, ?_, by simp⟩
        by_cases hq : char = '"' <;> simp [scan, hq, hchar]
      exact ih hfirst h
    | reading start raw quoted escaped =>
      rw [lexFrom] at h
      split at h
      next he => exact ih (hstate.push (by rw [scan, if_pos he, scan]) (by simp)) h
      rename_i he
      split at h
      next hb => exact ih (hstate.push (by rw [scan, if_neg he, if_pos hb, scan]) (fun _ => hb.2)) h
      rename_i hb
      split at h
      next hq =>
        refine ih (hstate.push ?_ (by simp)) h
        rw [scan, if_neg he, if_neg hb, if_pos hq, scan]
      rename_i hq
      split at h
      next hspace =>
        obtain ⟨ls, hrest, rfl⟩ := map_ok h
        intro l hl
        rcases mem_cons.mp hl with rfl | hl
        · exact hstate.closed (by simpa using hspace.2)
        · exact ih hskipping hrest l hl
      next hspace =>
        refine ih (hstate.push ?_ (by simp)) h
        rw [scan, if_neg he, if_neg hb, if_neg hq, if_neg hspace, scan]

/-- **Lexemes are closed.** -/
theorem lex_closed {query : Text} (h : lex query = .ok lexemes) {l : Lexeme} (hl : l ∈ lexemes) :
    Closed l.raw := by
  have hskipping : LexState.skipping.Sound := trivial
  exact lexFrom_sound hskipping h l hl

end Scanning

section Quoting

/-- Characters that mean nothing to the lexer. -/
def plainChar (c : Char) : Bool :=
  !isspace c && c ≠ '"'

theorem plainChar_iff {c : Char} : plainChar c = true ↔ isspace c = false ∧ c ≠ '"' := by
  simp [plainChar]

variable {a w v raw : Text}

theorem scan_plain (h : ∀ c ∈ a, plainChar c = true) (rest : Text) :
    scan false false (a ++ rest) = scan false false rest := by
  induction a with
  | nil => rfl
  | cons c tail ih =>
    have hc := plainChar_iff.mp (h c mem_cons_self)
    rw [cons_append, scan]
    simp only [hc.1, hc.2, Bool.false_eq_true, and_false, if_false, false_and]
    exact ih fun d hd => h d (mem_cons_of_mem _ hd)

theorem closed_of_plain (hne : w ≠ []) (h : ∀ c ∈ w, plainChar c = true) : Closed w := by
  refine ⟨hne, ?_, ?_⟩
  · exact fun c hc => (plainChar_iff.mp (h c (mem_of_mem_head? hc))).1
  · have hscan := scan_plain h []
    rwa [append_nil] at hscan

/-- A closed text without quotes has no white space either. -/
theorem Closed.plain_of_noQuote (h : Closed w) (hquote : '"' ∉ w) :
    ∀ c ∈ w, plainChar c = true := by
  have hscan := h.whole
  clear h
  induction w with
  | nil => simp
  | cons c tail ih =>
    have hc : c ≠ '"' := fun heq => hquote (by simp [heq])
    rw [scan] at hscan
    simp only [hc, Bool.false_eq_true, if_false, and_false] at hscan
    split at hscan
    · cases hscan
    next hspace =>
      intro d hd
      rcases mem_cons.mp hd with rfl | hd
      · simpa [plainChar, hc] using hspace
      · exact ih (fun hmem => hquote (mem_cons_of_mem _ hmem)) hscan d hd

theorem escape_cons (c : Char) (v : Text) :
    escape (c :: v) =
      (if c = '\\' then ['\\', '\\'] else if c = '"' then ['\\', '"'] else [c]) ++ escape v := by
  unfold escape replaceChar
  rw [flatMap_cons, flatMap_append]
  congr 1
  by_cases hb : c = '\\'
  · subst hb
    decide
  · by_cases hq : c = '"' <;> simp [hb, hq]

/-- Escaped text leaves the lexer inside the quotes. -/
theorem scan_escape (v rest : Text) :
    scan true false (escape v ++ rest) = scan true false rest := by
  induction v with
  | nil => rfl
  | cons c tail ih =>
    rw [escape_cons, append_assoc]
    by_cases hb : c = '\\'
    · simp [hb, scan, ih]
    · by_cases hq : c = '"'
      · simp [hq, scan, ih]
      · simp [hb, hq, scan, ih]

theorem unescape_escape (v rest : Text) :
    unescape false (escape v ++ rest) = v ++ unescape false rest := by
  induction v with
  | nil => rfl
  | cons c tail ih =>
    rw [escape_cons, append_assoc]
    by_cases hb : c = '\\'
    · simp [hb, unescape, ih]
    · by_cases hq : c = '"'
      · simp [hq, unescape, ih]
      · simp [hb, hq, unescape, ih]

/-- A quoted value after harmless characters is one lexeme. -/
theorem closed_quote (h : ∀ c ∈ a, plainChar c = true) (v : Text) : Closed (a ++ quote v) := by
  refine ⟨by simp [quote], ?_, ?_⟩
  · intro c hc
    cases a with
    | nil =>
      cases hc
      decide
    | cons d tail =>
      cases hc
      exact (plainChar_iff.mp (h c mem_cons_self)).1
  · rw [scan_plain h, quote, cons_append, scan]
    simp only [Bool.false_eq_true, and_false, if_false, if_true, Bool.not_false]
    rw [scan_escape]
    rfl

theorem decodeValue_quote (hv : v ≠ []) : decodeValue (quote v) = .ok (v, true) := by
  have hstart : startswith (quote v) ['"'] = true := by simp [startswith, quote]
  have hend : endswith (quote v) ['"'] = true := by
    rw [endswith, isSuffixOf_iff_suffix]
    exact ⟨'"' :: escape v, rfl⟩
  have hlen : ¬(quote v).length < 2 := by simp [quote]
  have hinner : unescape false ((quote v).tail.dropLast) = v := by
    have hdrop : (quote v).tail.dropLast = escape v ++ [] := by
      simp [quote]
    rw [hdrop, unescape_escape]
    simp [unescape]
  unfold decodeValue
  rw [if_neg (by simp [quote]), if_neg (by simp [hstart]), if_neg (by simp [hlen, hend])]
  simp only [hinner, if_neg hv]


theorem decodeValue_quote_nil : decodeValue (quote []) = .error missingValue := by
  decide

theorem bareValue_iff : bareValue v = true ↔ v ≠ [] ∧ ∀ c ∈ v, plainChar c = true ∧ c ≠ '\\' := by
  unfold bareValue plainChar
  cases v with
  | nil => simp
  | cons c tail => simp; grind

theorem startswith_quote_of_noQuote (hquote : '"' ∉ v) : startswith v ['"'] = false := by
  cases v with
  | nil => rfl
  | cons c tail =>
    have hc : '"' ≠ c := fun heq => hquote (by simp [← heq])
    simp [startswith, isPrefixOf, hc]

theorem decodeValue_noQuote (hne : v ≠ []) (hquote : '"' ∉ v) : decodeValue v = .ok (v, false) := by
  unfold decodeValue
  rw [if_neg hne, if_pos (by simp [startswith_quote_of_noQuote hquote]), if_neg hquote]

theorem noQuote_of_plain (h : ∀ c ∈ v, plainChar c = true) : '"' ∉ v := by
  intro hmem
  exact absurd (h _ hmem) (by decide)

/-- A printed value after harmless characters is one lexeme. -/
theorem closed_canonicalValue (h : ∀ c ∈ a, plainChar c = true) (v : Text) :
    Closed (a ++ canonicalValue v) := by
  unfold canonicalValue
  split
  next hbare =>
    obtain ⟨hne, hchars⟩ := bareValue_iff.mp hbare
    refine closed_of_plain (by simp [hne]) fun c hc => ?_
    rcases mem_append.mp hc with hc | hc
    · exact h c hc
    · exact (hchars c hc).1
  next => exact closed_quote h v

/-- Printing a value and decoding it gives the value. -/
theorem decodeValue_canonicalValue (v : Text) : decodeValue (canonicalValue v) =
    if v = [] then .error missingValue else .ok (v, !bareValue v) := by
  by_cases hnil : v = []
  · rw [hnil]
    exact decodeValue_quote_nil
  rw [if_neg hnil]
  unfold canonicalValue
  split
  next hbare =>
    obtain ⟨hne, hchars⟩ := bareValue_iff.mp hbare
    rw [hbare, decodeValue_noQuote hne (noQuote_of_plain fun c hc => (hchars c hc).1)]
    rfl
  next hbare =>
    rw [Bool.eq_false_iff.mpr hbare]
    exact decodeValue_quote hnil

/-- What a decoded value without quotes was. -/
theorem decodeValue_unquoted (h : decodeValue raw = .ok (v, false)) :
    v = raw ∧ raw ≠ [] ∧ '"' ∉ raw := by
  unfold decodeValue at h
  split at h
  · cases h
  rename_i hne
  split at h
  · split at h
    · cases h
    next hquote =>
      cases h
      exact ⟨rfl, hne, hquote⟩
  · split at h
    · cases h
    · simp only at h
      split at h <;> cases h

theorem decodeValue_ne_nil {quoted : Bool} (h : decodeValue raw = .ok (v, quoted)) : v ≠ [] := by
  unfold decodeValue at h
  split at h
  · cases h
  rename_i hne
  split at h
  · split at h
    · cases h
    · cases h
      exact hne
  · split at h
    · cases h
    · simp only at h
      split at h
      · cases h
      next hv =>
        cases h
        exact hv

/-- No colon outside the quotes of a quoted value. -/
theorem findColonFrom_escape (index : Nat) (v rest : Text) :
    findColonFrom index true false (escape v ++ rest) =
      findColonFrom (index + (escape v).length) true false rest := by
  induction v generalizing index with
  | nil => rfl
  | cons c tail ih =>
    rw [escape_cons, append_assoc]
    by_cases hb : c = '\\'
    · simp [hb, findColonFrom, ih]
      congr 1
      omega
    by_cases hq : c = '"'
    · simp [hq, findColonFrom, ih]
      congr 1
      omega
    · simp [hb, hq, findColonFrom, ih]
      congr 1
      omega

theorem findColon_quote (v : Text) : findColon (quote v) = none := by
  unfold findColon quote
  rw [cons_append, findColonFrom]
  simp only [Bool.false_eq_true, and_false, if_false, if_true, Bool.not_false]
  rw [findColonFrom_escape]
  rfl

/-- The first colon after characters that are neither quotes nor colons. -/
theorem findColonFrom_plain (h : ∀ c ∈ a, c ≠ '"' ∧ c ≠ ':' ∧ c ≠ '：') (index : Nat) (rest : Text) :
    findColonFrom index false false (a ++ ':' :: rest) = some (index + a.length) := by
  induction a generalizing index with
  | nil => rfl
  | cons c tail ih =>
    obtain ⟨hq, hcolon, hwide⟩ := h c mem_cons_self
    rw [cons_append, findColonFrom]
    simp only [hq, hcolon, hwide, Bool.false_eq_true, and_false, if_false, or_self, false_and]
    rw [ih (fun d hd => h d (mem_cons_of_mem _ hd)), length_cons]
    congr 1
    omega

end Quoting

end SearchLanguage
