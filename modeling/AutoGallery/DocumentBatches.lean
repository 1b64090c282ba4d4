import AutoGallery.PyText

/-!
# Batches of search documents

`_document_batches` sends documents to the index in batches of at most `max_documents`
documents and `max_bytes` bytes of JSON.  The loop counts the bytes as it goes; the count
is the length of the array that the batch is sent as (`batchesFrom_batched`).
-/

namespace DocumentBatches

open PyText List

/-- What the loop takes from elsewhere: `json.dumps` of a document with the separators `,`
and `:`, unless it raises, and the text of the document's id. -/
structure Runtime (Document : Type) where
  dumps : Document → Option Text
  idText : Document → Text

inductive BatchError
  | dumps
  | valueError (message : Text)
  deriving DecidableEq

/-- `len(text.encode("utf-8"))`. -/
def encodedLength (text : Text) : Nat :=
  (text.map Char.utf8Size).sum

/-- `1 if batch else 0`. -/
def separatorBytes {Document : Type} (batch : List Document) : Nat :=
  if batch.isEmpty then 0 else 1

variable {Document : Type} (R : Runtime Document) (maxDocuments maxBytes : Int)

/-- The rest of the loop, with the batch that it holds and `batch_bytes`. -/
def batchesFrom (batch : List Document) (batchBytes : Nat) :
    List Document → Except BatchError (List (List Document))
  | [] => .ok (if batch.isEmpty then [] else [batch])
  | document :: rest =>
    match R.dumps document with
    | none => .error .dumps
    | some text =>
      let documentBytes := encodedLength text
      if documentBytes + 2 > maxBytes then
        .error (.valueError ("Search document ".toList ++ R.idText document ++
          " exceeds ".toList ++ (toString maxBytes).toList ++ " bytes".toList))
      else if batch ≠ [] ∧ (batch.length ≥ maxDocuments ∨
          batchBytes + separatorBytes batch + documentBytes > maxBytes) then
        (batchesFrom [document] (2 + 0 + documentBytes) rest).map (batch :: ·)
      else batchesFrom (batch ++ [document]) (batchBytes + separatorBytes batch + documentBytes) rest

/-- `_document_batches`, to its end. -/
def documentBatches (documents : List Document) : Except BatchError (List (List Document)) :=
  batchesFrom R maxDocuments maxBytes [] 2 documents

/-- `",".join(texts)`. -/
def joined : List Text → Text
  | [] => []
  | text :: rest => text ++ rest.flatMap (',' :: ·)

/-- The compact JSON array of the documents. -/
def jsonArray (documents : List Document) : Option Text :=
  (documents.mapM R.dumps).map fun texts => '[' :: joined texts ++ [']']

variable {R maxDocuments maxBytes} {batch documents : List Document} {batches : List (List Document)}
  {array text : Text}

/-- One more document costs its bytes, and a comma if it is not the first. -/
theorem jsonArray_snoc {document : Document} (h : jsonArray R batch = some array)
    (hdumps : R.dumps document = some text) :
    ∃ longer, jsonArray R (batch ++ [document]) = some longer ∧
      encodedLength longer = encodedLength array + separatorBytes batch + encodedLength text := by
  obtain ⟨texts, htexts, rfl⟩ := Option.map_eq_some_iff.mp h
  refine ⟨'[' :: joined (texts ++ [text]) ++ [']'], by simp [jsonArray, htexts, hdumps], ?_⟩
  have hcomma : Char.utf8Size ',' = 1 := by decide
  cases batch with
  | nil =>
    cases htexts
    simp [joined, encodedLength, separatorBytes]
    omega
  | cons first rest =>
    cases texts with
    | nil => simp [Option.bind_eq_some_iff] at htexts
    | cons t ts =>
      simp [joined, encodedLength, separatorBytes, hcomma]
      omega

variable (R maxDocuments maxBytes) in
/-- The first document of the next batch would have taken this one over a limit. -/
def Full (batch next : List Document) : Prop :=
  ∀ document ∈ next.head?, maxDocuments < (batch ++ [document]).length ∨
    ∃ text, jsonArray R (batch ++ [document]) = some text ∧ maxBytes < encodedLength text

variable (R maxDocuments maxBytes) in
structure Batched (documents : List Document) (batches : List (List Document)) : Prop where
  flatten : batches.flatten = documents
  each : ∀ batch ∈ batches, batch ≠ [] ∧ batch.length ≤ maxDocuments ∧
    ∃ text, jsonArray R batch = some text ∧ encodedLength text ≤ maxBytes
  full : batches.IsChain (Full R maxDocuments maxBytes)

/-- The loop, by induction on the documents that are left: `batch_bytes` is the length of the
array. -/
theorem batchesFrom_batched (hmax : 1 ≤ maxDocuments) (harray : jsonArray R batch = some array)
    (hcount : batch.length ≤ maxDocuments) (hbound : batch ≠ [] → encodedLength array ≤ maxBytes)
    (h : batchesFrom R maxDocuments maxBytes batch (encodedLength array) documents = .ok batches) :
    Batched R maxDocuments maxBytes (batch ++ documents) batches := by
  induction documents generalizing batch array batches with
  | nil =>
    cases batch with
    | nil =>
      cases h
      exact ⟨rfl, nofun, .nil⟩
    | cons first rest =>
      cases h
      refine ⟨by simp, fun b hb => ?_, .singleton _⟩
      rw [mem_singleton.mp hb]
      exact ⟨cons_ne_nil _ _, hcount, array, harray, hbound (cons_ne_nil _ _)⟩
  | cons document rest ih =>
    rw [batchesFrom] at h
    split at h
    · cases h
    rename_i text hdumps
    obtain ⟨longer, hlonger, hlength⟩ := jsonArray_snoc harray hdumps
    dsimp only at h
    split_ifs at h with hfits hflush
    · obtain ⟨later, hlater, rfl⟩ := map_ok h
      have hnone : jsonArray R [] = some ['[', ']'] := rfl
      obtain ⟨alone, halone, hsize⟩ := jsonArray_snoc hnone hdumps
      change encodedLength alone = 2 + 0 + encodedLength text at hsize
      rw [← hsize] at hlater
      have hnext := ih halone hmax (fun _ => ?_) hlater
      · refine ⟨by simp [hnext.flatten], fun b hb => ?_, ?_⟩
        · rcases mem_cons.mp hb with rfl | hb
          · exact ⟨hflush.1, hcount, array, harray, hbound hflush.1⟩
          · exact hnext.each b hb
        · refine isChain_cons.mpr ⟨fun next hhead d hd => ?_, hnext.full⟩
          -- the next batch begins with the document that did not fit
          obtain ⟨others, rfl⟩ := head?_eq_some_iff.mp hhead
          obtain ⟨tail, rfl⟩ := head?_eq_some_iff.mp hd
          obtain ⟨rfl, -⟩ := cons.inj hnext.flatten
          refine hflush.2.imp (fun hmany => ?_) fun hlarge => ⟨longer, hlonger, ?_⟩
          · rw [length_append, length_singleton]
            omega
          · rw [hlength]
            push_cast
            exact hlarge
      · rw [hsize]
        omega
    · have hroom : (batch.length : Int) + 1 ≤ maxDocuments ∧ encodedLength longer ≤ maxBytes := by
        by_cases hne : batch = []
        · subst hne
          cases harray
          change encodedLength longer = 2 + 0 + encodedLength text at hlength
          exact ⟨by simpa using hmax, by omega⟩
        · have hkeep := not_or.mp fun hor => hflush ⟨hne, hor⟩
          omega
      rw [← hlength] at h
      have hkept := ih hlonger (by simpa using hroom.1) (fun _ => hroom.2) h
      rwa [append_assoc] at hkept

/-- **Batching is exact and bounded.** -/
theorem documentBatches_batched (R : Runtime Document) (maxDocuments maxBytes : Int)
    (documents : List Document) (batches : List (List Document)) (hmax : 1 ≤ maxDocuments)
    (h : documentBatches R maxDocuments maxBytes documents = .ok batches) :
    Batched R maxDocuments maxBytes documents batches := by
  have hnone : jsonArray R [] = some ['[', ']'] := rfl
  exact batchesFrom_batched hmax hnone (by simpa using hmax.trans' zero_le_one) nofun h

/-- Documents that are texts. -/
def textRuntime : Runtime Text := ⟨fun text => some (jsonDumps text), id⟩

theorem documentBatches_batched_three :
    documentBatches textRuntime 2 9 [['a'], ['b'], ['c']] = .ok [[['a'], ['b']], [['c']]] ∧
      Batched textRuntime 2 9 [['a'], ['b'], ['c']] [[['a'], ['b']], [['c']]] :=
  ⟨by decide, documentBatches_batched _ _ _ _ _ (by decide) (by decide)⟩

end DocumentBatches
