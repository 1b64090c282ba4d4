import AutoGallery.CurationCommands

/-!
# Command files

The client reads a command file and refuses contradictory operations before it sends them;
the request schema refuses them again.  The client goes by what is written: the text of a
work's identity, and the tag with the blanks around it.  The server goes by what is meant: the
identity itself, and the tag without blanks.  So a contradiction between two spellings passes
the client, and spellings, not works, count towards its limit.
-/

namespace Gll

open PyText Curation List

variable {casefold : Text → Text} {splitlines : Text → List Text} {utf8Length : Text → Nat}
  {statements : List Statement}

/-- The dictionary of one operation; the identity is as written. -/
structure Operation where
  workId : Text
  action : CommandAction
  value : Option Bool
  tag : Option Text
  reason : Option Text

/-- `GLLDocument`. -/
structure GllDocument where
  message : Text
  reason : Option Text
  expectedParentCommitId : Option Text
  operations : List Operation

/-- What the set of a work holds. -/
inductive ConflictKey where
  | trash
  | restore
  | favorite
  | tagAdd (name : Text)
  | tagRemove (name : Text)
  deriving DecidableEq

/-- The variables of the loop over the lines; `seen` are the sets of `subjects`. -/
structure Reading where
  message : Option Text := none
  reason : Option Text := none
  expected : Option Text := none
  versionSeen : Bool := false
  operations : List Operation := []
  seen : List (Text × ConflictKey) := []

/-- `f"line {number}: {message}"`. -/
def inLine (number : Nat) (message : Text) : Text :=
  "line ".toList ++ (toString number).toList ++ ": ".toList ++ message

/-- The operation of a line that begins with `work`. -/
def parseOperation (number : Nat) (workId action : Text) (rest : List Text) :
    Except Text Operation :=
  if action = "trash".toList then
    if rest = [] then .ok ⟨workId, .trash, none, none, none⟩
    else .error (inLine number "trash accepts no extra arguments".toList)
  else if action = "restore".toList then
    match rest with
    | [] => .ok ⟨workId, .restore, none, none, none⟩
    | [word, value] =>
      if word = "reason".toList then .ok ⟨workId, .restore, none, none, some value⟩
      else .error (inLine number "expected restore [reason VALUE]".toList)
    | _ => .error (inLine number "expected restore [reason VALUE]".toList)
  else if action = "favorite".toList then
    match rest with
    | [value] =>
      if value = "on".toList ∨ value = "off".toList then
        .ok ⟨workId, .favorite, some (value = "on".toList), none, none⟩
      else .error (inLine number "expected favorite on|off".toList)
    | _ => .error (inLine number "expected favorite on|off".toList)
  else if action = "tag".toList then
    match rest with
    | [kind, name] =>
      if kind = "add".toList then .ok ⟨workId, .tagAdd, none, some name, none⟩
      else if kind = "remove".toList then .ok ⟨workId, .tagRemove, none, some name, none⟩
      else .error (inLine number "expected tag add|remove NAME".toList)
    | _ => .error (inLine number "expected tag add|remove NAME".toList)
  else .error (inLine number ("unsupported work action ".toList ++ action))

section Parser

variable (casefold)

/-- `conflict_key`. -/
def conflictKey (op : Operation) : ConflictKey :=
  match op.action with
  | .trash => .trash
  | .restore => .restore
  | .favorite => .favorite
  | .tagAdd => .tagAdd (casefold (op.tag.getD []))
  | .tagRemove => .tagRemove (casefold (op.tag.getD []))

/-- `opposite`. -/
def opposite (op : Operation) : ConflictKey :=
  match op.action with
  | .trash => .restore
  | .restore => .trash
  | .favorite => .favorite
  | .tagAdd => .tagRemove (casefold (op.tag.getD []))
  | .tagRemove => .tagAdd (casefold (op.tag.getD []))

/-- The end of the loop body: the operation is added unless it contradicts one before. -/
def addOperation (number : Nat) (op : Operation) (r : Reading) : Except Text Reading :=
  if (op.workId, conflictKey casefold op) ∈ r.seen ∨ (op.workId, opposite casefold op) ∈ r.seen then
    .error (inLine number ("contradictory operation for work ".toList ++ op.workId))
  else .ok { r with
    seen := r.seen ++ [(op.workId, conflictKey casefold op)]
    operations := r.operations ++ [op] }

/-- A line that may stand once, with one value. -/
def once (number : Nat) (command : Text) (values : List Text) (old : Option Text)
    (set : Text → Reading) : Except Text Reading :=
  match values with
  | [value] =>
    if old = none then .ok (set value) else .error (inLine number ("duplicate ".toList ++ command))
  | _ => .error (inLine number (command ++ " expects one value".toList))

/-- The body of the loop over the lines. -/
def parseLine (number : Nat) (tokens : List Text) (r : Reading) : Except Text Reading :=
  match tokens with
  | [] => .ok r
  | command :: rest =>
    if tokens = ["version".toList, "1".toList] then
      if r.versionSeen then .error (inLine number "duplicate version".toList)
      else .ok { r with versionSeen := true }
    else if command = "message".toList then
      once number command rest r.message fun value => { r with message := some value }
    else if command = "reason".toList then
      once number command rest r.reason fun value => { r with reason := some value }
    else if command = "expect-head".toList then
      once number command rest r.expected fun value => { r with expected := some value }
    else if command ≠ "work".toList then .error (inLine number "unsupported statement".toList)
    else
      match rest with
      | workId :: action :: rest => do
        addOperation casefold number (← parseOperation number workId action rest) r
      | _ => .error (inLine number "unsupported statement".toList)

/-- The loop over the lines, numbered from `number` on. -/
def parseLines (tokens : Nat → Text → Except Text (List Text)) (number : Nat) :
    List Text → Reading → Except Text Reading
  | [], r => .ok r
  | line :: rest, r => do
    parseLines tokens (number + 1) rest (← parseLine casefold number (← tokens number line) r)

/-- The checks after the loop. -/
def finish (r : Reading) : Except Text GllDocument :=
  if r.versionSeen = false then .error "missing 'version 1' header".toList
  else
    match r.message.filter (strip · ≠ []) with
    | none => .error "message is required".toList
    | some message =>
      if r.operations = [] then .error "at least one work operation is required".toList
      else if (r.operations.map (·.workId)).dedup.length > 25 then
        .error "a command may affect at most 25 unique works".toList
      else .ok ⟨message, r.reason, r.expected, r.operations⟩

/-- `parse_gll` of a text.  `tokens` is `_tokens`, which splits a line as a shell does,
`splitlines` is `str.splitlines` and `utf8Length` the length of the text in UTF-8. -/
def parseGll (tokens : Nat → Text → Except Text (List Text)) (splitlines : Text → List Text)
    (utf8Length : Text → Nat) (content : Text) : Except Text GllDocument :=
  if 1024 * 1024 < utf8Length content then .error "command file exceeds 1 MiB".toList
  else do finish (← parseLines casefold tokens 1 (splitlines content) {})

end Parser

section Files

/-- A line about a work. -/
inductive Statement where
  | trash (workId : Text)
  | restore (workId : Text) (reason : Option Text)
  | favorite (workId : Text) (on : Bool)
  | tag (workId : Text) (add : Bool) (name : Text)

/-- The words of the line. -/
def Statement.tokens : Statement → List Text
  | .trash workId => ["work".toList, workId, "trash".toList]
  | .restore workId none => ["work".toList, workId, "restore".toList]
  | .restore workId (some reason) =>
    ["work".toList, workId, "restore".toList, "reason".toList, reason]
  | .favorite workId on =>
    ["work".toList, workId, "favorite".toList, (if on then "on" else "off").toList]
  | .tag workId add name =>
    ["work".toList, workId, "tag".toList, (if add then "add" else "remove").toList, name]

/-- The operation that the line stands for. -/
def Statement.operation : Statement → Operation
  | .trash workId => ⟨workId, .trash, none, none, none⟩
  | .restore workId reason => ⟨workId, .restore, none, none, reason⟩
  | .favorite workId on => ⟨workId, .favorite, some on, none, none⟩
  | .tag workId add name => ⟨workId, if add then .tagAdd else .tagRemove, none, some name, none⟩

/-- A header that both sides take. -/
structure Header where
  message : Text
  reason : Option Text
  expected : Option Text
  message_ne : strip message ≠ []
  message_le : message.length ≤ 2000
  reason_le : (reason.getD []).length ≤ 2000

def Header.tokens (header : Header) : List (List Text) :=
  [["version".toList, "1".toList], ["message".toList, header.message]] ++
    (header.reason.toList.map fun value => ["reason".toList, value]) ++
      header.expected.toList.map fun value => ["expect-head".toList, value]

/-- The lines split into these words, whatever their number. -/
abbrev Splits (tokens : Nat → Text → Except Text (List Text)) (lines : List Text)
    (words : List (List Text)) : Prop :=
  List.Forall₂ (fun line words => ∀ number, tokens number line = .ok words) lines words

/-- A list of statements as a file. -/
structure Written (tokens : Nat → Text → Except Text (List Text)) (splitlines : Text → List Text)
    (utf8Length : Text → Nat) (header : Header) (statements : List Statement) (content : Text) :
    Prop where
  size : utf8Length content ≤ 1024 * 1024
  lines : Splits tokens (splitlines content) (header.tokens ++ statements.map Statement.tokens)

variable {tokens : Nat → Text → Except Text (List Text)} {number : Nat} {r : Reading}

/-- What an operation is about, as it is written. -/
def written (casefold : Text → Text) (op : Operation) : Text × Family :=
  (op.workId, match op.action with
    | .trash | .restore => .visibility
    | .favorite => .favorite
    | .tagAdd | .tagRemove => .tag (casefold (op.tag.getD [])))

variable (casefold) in
/-- The sets are those of the operations, and these do not contradict each other. -/
structure Consistent (r : Reading) : Prop where
  seen : r.seen = r.operations.map fun op => (op.workId, conflictKey casefold op)
  apart : (r.operations.map (written casefold)).Nodup

/-- The two tests of the client are one: the operations are about the same. -/
theorem clash_iff (first second : Operation) :
    (first.workId, conflictKey casefold first) = (second.workId, conflictKey casefold second) ∨
        (first.workId, conflictKey casefold first) = (second.workId, opposite casefold second) ↔
      written casefold first = written casefold second := by
  rcases first with ⟨w, a, v, t, z⟩
  rcases second with ⟨w', a', v', t', z'⟩
  cases a <;> cases a' <;> simp [conflictKey, opposite, written]

theorem addOperation_cases (h : Consistent casefold r) (op : Operation) :
    (written casefold op ∉ r.operations.map (written casefold) ∧ ∃ r',
        addOperation casefold number op r = .ok r' ∧ Consistent casefold r' ∧
          r' = { r with operations := r.operations ++ [op], seen := r'.seen }) ∨
      written casefold op ∈ r.operations.map (written casefold) ∧
        ∃ e, addOperation casefold number op r = .error e := by
  have hmem : ((op.workId, conflictKey casefold op) ∈ r.seen ∨
      (op.workId, opposite casefold op) ∈ r.seen) ↔
        written casefold op ∈ r.operations.map (written casefold) := by
    simp only [h.seen, mem_map, ← exists_or, ← and_or_left, clash_iff]
  unfold addOperation
  split
  next hclash => exact .inr ⟨hmem.mp hclash, _, rfl⟩
  rename_i hclash
  have hnew := mt hmem.mpr hclash
  refine .inl ⟨hnew, _, rfl, ⟨by simp [h.seen], ?_⟩, rfl⟩
  rw [map_append, nodup_append]
  exact ⟨h.apart, nodup_singleton _, fun a ha b hb heq =>
    hnew (mem_singleton.mp hb ▸ heq ▸ ha)⟩

/-- A statement is read as its operation. -/
theorem parseLine_statement (s : Statement) :
    parseLine casefold number s.tokens r = addOperation casefold number s.operation r := by
  rcases s with _ | ⟨_, _ | _⟩ | ⟨_, _ | _⟩ | ⟨_, _ | _, _⟩ <;> rfl

theorem parseLines_cons {line : Text} {words : List Text}
    (hline : ∀ number, tokens number line = .ok words) (lines : List Text) :
    parseLines casefold tokens number (line :: lines) r =
      (parseLine casefold number words r).bind (parseLines casefold tokens (number + 1) lines) := by
  rw [parseLines, hline]
  rfl

/-- The statements of a file are read if none contradicts another in what is written. -/
theorem parseLines_statements (number : Nat) (h : Consistent casefold r) {lines : List Text}
    (hlines : Splits tokens lines (statements.map Statement.tokens)) :
    ((r.operations ++ statements.map Statement.operation).map (written casefold)).Nodup ∧ (∃ r',
        parseLines casefold tokens number lines r = .ok r' ∧ r' = { r with
          operations := r.operations ++ statements.map Statement.operation, seen := r'.seen }) ∨
      ¬((r.operations ++ statements.map Statement.operation).map (written casefold)).Nodup ∧
        ∃ e, parseLines casefold tokens number lines r = .error e := by
  induction statements generalizing number r lines with
  | nil =>
    cases hlines
    exact .inl ⟨by simpa using h.apart, r, rfl, by simp⟩
  | cons s rest ih =>
    obtain ⟨line, lines, hline, hrest, rfl⟩ := forall₂_cons_right_iff.mp hlines
    rw [parseLines_cons hline, parseLine_statement]
    rcases addOperation_cases h s.operation with ⟨hnew, r', hr', hconsistent, heq⟩ | ⟨hold, e, he⟩
    · have hops : r'.operations ++ rest.map Statement.operation =
          r.operations ++ (s :: rest).map Statement.operation := by
        rw [heq]
        simp
      have hih := ih (number + 1) hconsistent hrest
      rw [hops] at hih
      rw [hr']
      refine hih.imp_left fun ⟨hnodup, r'', hr'', heq'⟩ => ⟨hnodup, r'', hr'', ?_⟩
      rw [heq', heq]
    · refine .inr ⟨fun hnodup => ?_, e, by rw [he]; rfl⟩
      rw [map_append, nodup_append] at hnodup
      exact hnodup.2.2 _ hold _ (by simp) rfl

/-- The header is read. -/
theorem parseLines_header {header : Header} {words : List (List Text)} {lines : List Text}
    (hlines : Splits tokens lines (header.tokens ++ words)) :
    ∃ number rest, Splits tokens rest words ∧
      parseLines casefold tokens 1 lines {} = parseLines casefold tokens number rest
        ⟨some header.message, header.reason, header.expected, true, [], []⟩ := by
  obtain ⟨message, reason, expected, _, _, _⟩ := header
  obtain ⟨line₁, lines₁, h₁, hlines₁, rfl⟩ := forall₂_cons_right_iff.mp hlines
  obtain ⟨line₂, lines₂, h₂, hlines₂, rfl⟩ := forall₂_cons_right_iff.mp hlines₁
  rw [parseLines_cons h₁]
  change ∃ _ _, _ ∧ parseLines casefold tokens 2 (line₂ :: lines₂) _ = _
  rw [parseLines_cons h₂]
  rcases reason with _ | reason
  · rcases expected with _ | expected
    · exact ⟨3, lines₂, hlines₂, rfl⟩
    · obtain ⟨line₃, lines₃, h₃, hlines₃, rfl⟩ := forall₂_cons_right_iff.mp hlines₂
      exact ⟨4, lines₃, hlines₃, parseLines_cons h₃ _⟩
  · obtain ⟨line₃, lines₃, h₃, hlines₃, rfl⟩ := forall₂_cons_right_iff.mp hlines₂
    rcases expected with _ | expected
    · exact ⟨4, lines₃, hlines₃, parseLines_cons h₃ _⟩
    · obtain ⟨line₄, lines₄, h₄, hlines₄, rfl⟩ := forall₂_cons_right_iff.mp hlines₃
      exact ⟨5, lines₄, hlines₄, (parseLines_cons h₃ _).trans (parseLines_cons h₄ _)⟩

/-- With a header, the operations decide. -/
theorem finish_ok_iff {message : Text} (hversion : r.versionSeen = true)
    (hmessage : r.message = some message) (hne : strip message ≠ []) :
    (∃ document, finish r = .ok document) ↔
      r.operations ≠ [] ∧ (r.operations.map (·.workId)).dedup.length ≤ 25 := by
  have hfilter : r.message.filter (strip · ≠ []) = some message := by
    rw [hmessage]
    exact if_pos (decide_eq_true hne)
  unfold finish
  rw [hversion, hfilter]
  dsimp only
  split_ifs with h h <;> grind

end Files

section Agreement

variable {tokens : Nat → Text → Except Text (List Text)} {header : Header} {content : Text}
  {uuid : Text → Option Uuid}

/-- The identities and the tags that the statements may have. -/
structure Valid (uuid : Text → Option Uuid) (statements : List Statement) : Prop where
  length : statements.length ≤ 100
  ids : ∀ s ∈ statements, (uuid s.operation.workId).isSome
  tags : ∀ s ∈ statements, ∀ tag ∈ s.operation.tag, strip tag ≠ [] ∧ tag.length ≤ 255

/-- The operation as the server takes it; `uuid` reads an identity. -/
def received (uuid : Text → Option Uuid) (s : Statement) : CommandOperation :=
  ⟨(uuid s.operation.workId).getD 0, s.operation.action, s.operation.value, s.operation.tag,
    s.operation.reason⟩

/-- The request for a file. -/
def request (uuid : Text → Option Uuid) (idempotencyKey : Uuid) (header : Header)
    (statements : List Statement) : CommandRequest :=
  ⟨header.message, header.reason, header.expected.bind uuid, idempotencyKey,
    statements.map (received uuid)⟩

variable (casefold uuid) in
/-- What a statement is about, for the server. -/
def meant (s : Statement) : Uuid × Family :=
  ((received uuid s).workId, familyOf casefold (received uuid s))

/-- No reason is too long. -/
def ReasonsFit (statements : List Statement) : Prop :=
  ∀ s ∈ statements, (s.operation.reason.getD []).length ≤ 2000

/-- How many texts name the works of a file. -/
def spellings (statements : List Statement) : Nat :=
  (statements.map (·.operation.workId)).dedup.length

/-- How many works a file is about. -/
def works (uuid : Text → Option Uuid) (statements : List Statement) : Nat :=
  (statements.map fun s => (received uuid s).workId).dedup.length

theorem parseGll_ok_iff (h : Written tokens splitlines utf8Length header statements content) :
    (∃ document, parseGll casefold tokens splitlines utf8Length content = .ok document) ↔
      statements ≠ [] ∧ spellings statements ≤ 25 ∧
        (statements.map fun s => written casefold s.operation).Nodup := by
  obtain ⟨number, rest, hrest, hheader⟩ := @parseLines_header casefold tokens header _ _ h.lines
  unfold parseGll
  rw [if_neg (not_lt.mpr h.size), hheader]
  have hempty : Consistent casefold
      ⟨some header.message, header.reason, header.expected, true, [], []⟩ := ⟨rfl, nodup_nil⟩
  have hcases := parseLines_statements number hempty hrest
  simp only [nil_append, map_map] at hcases
  rcases hcases with ⟨hnodup, r', hr', heq⟩ | ⟨hclash, e, he⟩
  · rw [hr']
    refine (finish_ok_iff (by rw [heq]) (by rw [heq]) header.message_ne).trans ?_
    rw [heq]
    simp only [map_map, ne_eq, map_eq_nil_iff]
    exact ⟨fun h => ⟨h.1, h.2, hnodup⟩, fun h => ⟨h.1, h.2.1⟩⟩
  · rw [he]
    refine ⟨fun h => ?_, fun h => absurd h.2.2 hclash⟩
    obtain ⟨_, h⟩ := h
    cases h

theorem accepted_request_iff (hvalid : Valid uuid statements) (key : Uuid) :
    Accepted casefold (request uuid key header statements) ↔
      statements ≠ [] ∧ works uuid statements ≤ 25 ∧
        (statements.map (meant casefold uuid)).Nodup ∧ ReasonsFit statements := by
  have hfits : fieldsFit (request uuid key header statements) = true ↔
      statements ≠ [] ∧ ReasonsFit statements := by
    have hmessage : 1 ≤ header.message.length :=
      length_pos_of_ne_nil fun hnil => header.message_ne (by rw [hnil]; rfl)
    have htags : ∀ s ∈ statements,
        (s.operation.tag.all fun t => 1 ≤ t.length ∧ t.length ≤ 255) = true := by
      intro s hs
      have hvalid := hvalid.tags s hs
      cases ht : s.operation.tag with
      | none => rfl
      | some tag =>
        refine decide_eq_true ⟨length_pos_of_ne_nil fun hnil => ?_, (hvalid tag ht).2⟩
        exact (hvalid tag ht).1 (by rw [hnil]; rfl)
    simp only [fieldsFit, request, ReasonsFit, hmessage, header.message_le, header.reason_le,
      true_and, length_map, hvalid.length, forall_mem_map, decide_eq_true_eq]
    exact and_congr length_pos_iff (forall₂_congr fun s hs => and_iff_right (htags s hs))
  have hpayload : ∀ op ∈ (request uuid key header statements).operations,
      validateActionPayload op = .ok () := by
    intro op hop
    obtain ⟨s, hs, rfl⟩ := mem_map.mp hop
    have htag := hvalid.tags s hs
    rcases s with _ | _ | _ | ⟨_, _ | _, _⟩ <;>
      simp_all [validateActionPayload, received, Statement.operation, CommandAction.onTag]
  have hconflicts : validateWorkLimitAndConflicts casefold (request uuid key header statements) =
      .ok () ↔ works uuid statements ≤ 25 ∧ (statements.map (meant casefold uuid)).Nodup := by
    unfold validateWorkLimitAndConflicts
    rw [Nodup, pairwise_map]
    split
    next hmany => simp [works, request, map_map, Function.comp_def] at hmany ⊢; omega
    next hfew =>
      rw [checkConflicts_iff, request, pairwise_map]
      simp [works, request, map_map, Function.comp_def, meant] at hfew ⊢; omega
  rw [Accepted, hfits, hconflicts]
  tauto

/-- What is written alike is meant alike. -/
theorem meant_of_written (hstrip : ∀ t, casefold (strip t) = strip (casefold t)) {s t : Statement}
    (h : written casefold s.operation = written casefold t.operation) :
    meant casefold uuid s = meant casefold uuid t := by
  rcases s with _ | _ | _ | ⟨_, _ | _, _⟩ <;> rcases t with _ | _ | _ | ⟨_, _ | _, _⟩ <;>
    simp_all [written, meant, received, Statement.operation, familyOf, normalizedTag]

/-- The digits of an identity, with or without hyphens, in either case. -/
def readUuid (text : Text) : Option Uuid :=
  let digits := (text.filter (· ≠ '-')).map Char.toLower
  if digits.length = 32 then some (digits.foldl
    (fun n c => 16 * n + (if c ≤ '9' then c.toNat - 48 else c.toNat - 87)) 0) else none

def sampleHeader : Header := ⟨"review".toList, none, none, by decide, by decide, by decide⟩

end Agreement

end Gll
