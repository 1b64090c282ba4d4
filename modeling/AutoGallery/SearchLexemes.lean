import AutoGallery.SearchLexer

/-!
# Where the lexemes stand

The lexer cuts a query into lexemes and white space and loses nothing (`Tiles`), so every
lexeme is the slice of the query between its two places.  `_lex` and `_decode_value`
track escapes separately: `_lex` inside quotes only, `_decode_value` everywhere.  Inside
quotes they agree (`decodeLoop_agrees`), and the quote that ends a lexeme is read inside
quotes, so the decoder never ends in an escape there.
-/

namespace SearchLanguage

open PyText List

/-- The text from place `index` on is white space and the lexemes, in turn. -/
inductive Tiles : Nat → Text → List Lexeme → Prop
  | nil (index : Nat) : Tiles index [] []
  | space {index : Nat} {char : Char} {rest : Text} {lexemes : List Lexeme}
      (hchar : isspace char = true) (h : Tiles (index + 1) rest lexemes) :
      Tiles index (char :: rest) lexemes
  | lexeme {index : Nat} {raw rest : Text} {lexemes : List Lexeme} (hraw : raw ≠ [])
      (h : Tiles (index + raw.length) rest lexemes) :
      Tiles index (raw ++ rest) (⟨raw, index, index + raw.length⟩ :: lexemes)

/-- Both loops of the lexer, by induction on the text that is left. -/
theorem lexFrom_tiles (rest : Text) :
    (∀ index lexemes, lexFrom index .skipping rest = .ok lexemes → Tiles index rest lexemes) ∧
    ∀ start raw quoted escaped lexemes, raw ≠ [] →
      lexFrom (start + raw.length) (.reading start raw quoted escaped) rest = .ok lexemes →
      Tiles start (raw ++ rest) lexemes := by
  induction rest with
  | nil =>
    refine ⟨fun index lexemes h => ?_, fun start raw quoted escaped lexemes hraw h => ?_⟩
    · cases h
      exact .nil index
    · rw [lexFrom] at h
      split at h
      · cases h
      · cases h
        exact .lexeme hraw (.nil _)
  | cons char rest ih =>
    obtain ⟨hskipping, hreading⟩ := ih
    refine ⟨fun index lexemes h => ?_, fun start raw quoted escaped lexemes hraw h => ?_⟩
    · rw [lexFrom] at h
      split at h
      next hspace => exact .space hspace (hskipping _ _ h)
      next => exact hreading index [char] _ _ _ (cons_ne_nil _ _) h
    · have hpush : ∀ quoted' escaped', lexFrom (start + raw.length + 1)
          (.reading start (raw ++ [char]) quoted' escaped') rest = .ok lexemes →
          Tiles start (raw ++ char :: rest) lexemes := by
        intro quoted' escaped' hnext
        have hlength : start + raw.length + 1 = start + (raw ++ [char]).length := by
          rw [length_append, length_singleton, Nat.add_assoc]
        rw [hlength] at hnext
        have htiles := hreading start _ quoted' escaped' lexemes (by simp) hnext
        rwa [append_assoc, singleton_append] at htiles
      rw [lexFrom] at h
      split_ifs at h with hescaped hback hquote hspace
      · exact hpush _ _ h
      · exact hpush _ _ h
      · exact hpush _ _ h
      · obtain ⟨others, hothers, rfl⟩ := map_ok h
        exact .lexeme hraw (.space hspace.1 (hskipping _ _ hothers))
      · exact hpush _ _ h

/-- The lexemes from place `index` on, in order, are slices of the query, and there is
white space around them. -/
structure Places (query : Text) (index : Nat) (lexemes : List Lexeme) : Prop where
  slice : ∀ l ∈ lexemes, index ≤ l.start ∧ l.start < l.stop ∧ l.stop ≤ query.length ∧
    l.raw = (query.take l.stop).drop l.start
  ordered : lexemes.Pairwise fun a b => a.stop ≤ b.start
  outside : ∀ i char, index ≤ i → query[i]? = some char →
    (∀ l ∈ lexemes, ¬(l.start ≤ i ∧ i < l.stop)) → isspace char = true

theorem Tiles.places {index : Nat} {rest : Text} {lexemes : List Lexeme}
    (h : Tiles index rest lexemes) (before : Text) (hindex : before.length = index) :
    Places (before ++ rest) index lexemes := by
  induction h generalizing before with
  | nil index =>
    refine ⟨nofun, .nil, fun i char hi hchar _ => ?_⟩
    rw [append_nil, getElem?_eq_none (by omega)] at hchar
    cases hchar
  | @space index c rest lexemes hspace h ih =>
    have hplaces := ih (before ++ [c]) (by simp [hindex])
    rw [append_assoc, singleton_append] at hplaces
    refine ⟨fun l hl => ?_, hplaces.ordered, fun i char hi hchar hnone => ?_⟩
    · obtain ⟨hstart, hslice⟩ := hplaces.slice l hl
      exact ⟨by omega, hslice⟩
    · rcases Nat.eq_or_lt_of_le hi with rfl | hlater
      · rw [← hindex, getElem?_append_right le_rfl, Nat.sub_self] at hchar
        cases hchar
        exact hspace
      · exact hplaces.outside i char hlater hchar hnone
  | @lexeme index raw rest lexemes hraw h ih =>
    have hplaces := ih (before ++ raw) (by simp [hindex])
    rw [append_assoc] at hplaces
    have hpos : 0 < raw.length := length_pos_iff.mpr hraw
    refine ⟨fun l hl => ?_, ?_, fun i char hi hchar hnone => ?_⟩
    · rcases mem_cons.mp hl with rfl | hl
      · refine ⟨le_rfl, Nat.lt_add_of_pos_right hpos, by simp [hindex], ?_⟩
        rw [← append_assoc, ← hindex, take_left' (length_append ..), drop_left]
      · obtain ⟨hstart, hslice⟩ := hplaces.slice l hl
        exact ⟨by omega, hslice⟩
    · exact pairwise_cons.mpr ⟨fun l hl => (hplaces.slice l hl).1, hplaces.ordered⟩
    · have hfirst := hnone _ mem_cons_self
      refine hplaces.outside i char (by dsimp only at hfirst; omega) hchar fun l hl => ?_
      exact hnone l (mem_cons_of_mem _ hl)

/-- The loop of `_decode_value`: the characters it has decoded, and `escaped` after it. -/
def decodeLoop : Bool → Text → Text × Bool
  | escaped, [] => ([], escaped)
  | escaped, char :: rest =>
    let (decoded, escaped') := decodeLoop (!escaped && char = '\\') rest
    (if ¬escaped ∧ char = '\\' then decoded else char :: decoded, escaped')

theorem unescape_eq (escaped : Bool) (t : Text) : unescape escaped t =
    (decodeLoop escaped t).1 ++ if (decodeLoop escaped t).2 then ['\\'] else [] := by
  induction t generalizing escaped with
  | nil => cases escaped <;> rfl
  | cons char rest ih =>
    cases escaped with
    | true => simp [unescape, decodeLoop, ih]
    | false => by_cases hback : char = '\\' <;> simp [unescape, decodeLoop, hback, ih]

/-- Inside quotes the decoder and the lexer agree on what is escaped, whatever they made
of the text between the quotes. -/
theorem decodeLoop_agrees {a : Text} {quoted escaped quoted' escaped' : Bool} (decoder : Bool)
    (h : scan quoted escaped a = some (quoted', escaped'))
    (hescaped : escaped = true → quoted = true) (hagree : quoted = true → decoder = escaped) :
    (escaped' = true → quoted' = true) ∧ (quoted' = true → (decodeLoop decoder a).2 = escaped') := by
  induction a generalizing quoted escaped decoder with
  | nil =>
    cases h
    exact ⟨hescaped, hagree⟩
  | cons char rest ih =>
    rw [scan] at h
    split_ifs at h with he hback hquote hspace
    · exact ih _ h (by simp) fun hq => by simp [hagree hq, he]
    · exact ih _ h (fun _ => hback.2) fun hq => by simp_all
    · exact ih _ h (by simp) fun _ => by simp [hquote]
    · exact ih _ h (by simp) fun hq => by simp_all

/-- A closed text between two quotes leaves the decoder outside of an escape. -/
theorem Closed.no_dangling {inner : Text} (h : Closed ('"' :: inner ++ ['"'])) :
    (decodeLoop false inner).2 = false := by
  have hscan : scan true false (inner ++ ['"']) = some (false, false) := by
    have hwhole := h.whole
    rwa [cons_append, scan] at hwhole
  rw [scan_append] at hscan
  obtain ⟨⟨quoted, escaped⟩, hinner, hlast⟩ := Option.bind_eq_some_iff.mp hscan
  obtain ⟨hescaped, hagree⟩ := decodeLoop_agrees false hinner (by simp) fun _ => rfl
  cases escaped with
  | true =>
    rw [hescaped rfl] at hlast
    cases hlast
  | false =>
    cases quoted with
    | true => exact hagree rfl
    | false => cases hlast

/-- **Lexing is lossless.**  The lexemes are slices of the query in their order with white
space around them.  The value of a lexeme in quotes is printed as one lexeme, which decodes
to that value; and no lexeme in quotes ends in an escape. -/
theorem lex_lossless {query : Text} {lexemes : List Lexeme} (h : lex query = .ok lexemes) :
    Places query 0 lexemes ∧ (∀ l ∈ lexemes, l.raw ≠ []) ∧
    ∀ l ∈ lexemes, startswith l.raw ['"'] = true →
      (∀ value quoted, decodeValue l.raw = .ok (value, quoted) →
        lex (canonicalValue value) =
          .ok [⟨canonicalValue value, 0, (canonicalValue value).length⟩] ∧
        decodeValue (canonicalValue value) = .ok (value, !bareValue value)) ∧
      (2 ≤ l.raw.length → endswith l.raw ['"'] = true →
        (decodeLoop false l.raw.tail.dropLast).2 = false) := by
  refine ⟨((lexFrom_tiles query).1 0 lexemes h).places [] rfl,
    fun l hl => (lex_closed h hl).ne_nil, fun l hl hstart => ⟨fun value quoted hdecoded => ?_,
      fun hlength hend => ?_⟩⟩
  · refine ⟨lex_alone (closed_canonicalValue (a := []) nofun value), ?_⟩
    rw [decodeValue_canonicalValue, if_neg (decodeValue_ne_nil hdecoded)]
  · obtain ⟨inner, hinner⟩ := isPrefixOf_iff_prefix.mp hstart
    obtain ⟨front, hfront⟩ := isSuffixOf_iff_suffix.mp hend
    have hclosed := lex_closed h hl
    cases front with
    | nil => simp [← hfront] at hlength
    | cons c front =>
      rw [← hinner] at hfront
      obtain ⟨rfl, rfl⟩ := cons.inj hfront
      rw [← hinner] at hclosed ⊢
      simpa using hclosed.no_dangling

theorem lex_lossless_quoted :
    lex "a \"b \\\" c\"".toList =
      .ok [⟨"a".toList, 0, 1⟩, ⟨"\"b \\\" c\"".toList, 2, 10⟩] ∧
    Places "a \"b \\\" c\"".toList 0 [⟨"a".toList, 0, 1⟩, ⟨"\"b \\\" c\"".toList, 2, 10⟩] :=
  ⟨by decide, (lex_lossless (by decide)).1⟩

end SearchLanguage
