import AutoGallery.FilterGroups

/-!
# The two readings of a qualifier

The database filters rows of `works` and their joins, the index filters documents
built from the same rows.  For each qualifier this file says on which rows the two
agree (`QualifierAgrees`) and proves that the compilers then agree about it
(`compiled_of_agrees`).
-/

namespace DateRanges

open SearchLanguage WorkDatabase

/-- The keys with a date that works have. -/
def dateKeys : List Key := [.posted, .created, .updated]

/-- The column of a date. -/
def dateColumn : Key → Work → Option Int
  | .posted => Work.postedAt
  | .created => fun work => some work.createdAt
  | _ => fun work => some work.updatedAt

end DateRanges

namespace FilterAgreement

open PyText SourceIdentity SearchLanguage SearchFilters WorkDatabase WorkDocuments SqlFilters Sql List
open Meili FilterGroups DateRanges
open Truth (holds_of of_ne_unknown holds_and holds_or)

section Conditions

section

variable (E : FilterRuntime)

/-- Stored texts and a value that is looked up among them: the index ignores case,
so nothing may differ from the value in its case only. -/
def TextAgrees (stored : List Text) (value : Text) : Prop :=
  (∃ s ∈ stored, E.foldCase s = E.foldCase value) → value ∈ stored

/-- A source and an identity: the index looks up the joined text, up to case. -/
def IdentityAgrees (rows : List WorkSource)
    (column : WorkSource → Option Text) (source identity : Text) : Prop :=
  (∃ row ∈ rows, ∃ stored, column row = some stored ∧
    E.foldCase (sourceKey row.source stored) = E.foldCase (sourceKey source identity)) →
  ∃ row ∈ rows, row.source = source ∧ column row = some identity

/-- A work source and a repository: the database joins empty identities and the
index does not, and the two trim and lower URLs in different ways. -/
def RepositoryAgrees (row : WorkSource) (repo : SubscriptionSource) : Prop :=
  (repo.source = row.source → ¬(row.sourceCreatorId = some [] ∧ repo.sourceCreatorId = some [])) ∧
  ∀ u v, row.sourceUrl = some u → repo.sourceUrl = some v →
    (sqlNormalizedUrl E v = sqlNormalizedUrl E u ↔
      u ≠ [] ∧ v ≠ [] ∧ normalizeUrl E.toCaseMap v = normalizeUrl E.toCaseMap u)

/-- The assets of a work: the database compares the end of a file name and the index
the suffix of a path, and only the database looks at the role of an asset. -/
structure MediaAgrees (kind : MediaKind) (files : FileKind)
    (rows : List (AssetSource × Asset)) : Prop where
  mime : ∀ row ∈ rows, kind.mime (E.sqlLower (row.2.mimeType.getD [])) =
    (truthy row.2.mimeType).any fun mime => files.mime (E.lower mime)
  name : ∀ row ∈ rows, (kind.endings.any fun ending => endswith (E.sqlLower row.2.fileName) ending) =
    decide (suffix (E.lower row.2.fileName) ∈ files.suffixes)
  role : (∃ row ∈ rows, E.sqlLower row.1.role ∈ kind.roles) →
    ∃ row ∈ rows, files.matches E.toCaseMap row.2 = true

/-- A description: the database trims blanks, the index white space. -/
def DescriptionAgrees (description : Text) : Prop :=
  (∀ c ∈ description, isspace c = true) → ∀ c ∈ description, c = ' '

/-- An instant and the bounds of a date.  The index keeps whole seconds: an instant
inside the second of a bound is taken for the bound.  The database takes an end at
the epoch for no end. -/
def DateAgrees (bounds : DateBounds) (t : Int) : Prop :=
  match bounds.operator, bounds.stop with
  | .gt, _ | .le, _ => ¬(E.timestamp t = bounds.start ∧ bounds.start * 1000000 < t)
  | .ge, _ | .lt, _ => ¬(E.timestamp t = bounds.start ∧ t < bounds.start * 1000000)
  | _, none => ¬(E.timestamp t = bounds.start ∧ t ≠ bounds.start * 1000000)
  | _, some stop =>
    if stop = 0 then
      ¬(bounds.start ≤ E.timestamp t ∧ E.timestamp t ≤ 0 ∧ t ≠ bounds.start * 1000000)
    else
      ¬(E.timestamp t = bounds.start ∧ t < bounds.start * 1000000) ∧
        ¬(E.timestamp t = stop ∧ stop * 1000000 < t)

/-- The bounds are dates of the years 1 to 9999 in UTC. -/
def InYears (bounds : DateBounds) : Prop :=
  ∀ seconds ∈ bounds.start :: bounds.stop.toList,
    -62135596800 ≤ seconds ∧ seconds < 253402300800

/-- A date qualifier on a column. -/
def DateQualifierAgrees (column : Option Int) (value : Text) : Prop :=
  ∀ bounds, dateBounds E value = .ok bounds →
    InYears bounds ∧ ∀ t, column = some t → DateAgrees E bounds t

/-- The rows on which the two compilers agree about a `has:` value. -/
def HasAgrees (db : Database) (work : Work) (value : Text) : Prop :=
  (value = "description".toList → DescriptionAgrees (work.description.getD [])) ∧
  (value = "image".toList → MediaAgrees E imageMedia imageFiles (db.assetsOf work.id)) ∧
  (value = "animation".toList →
    MediaAgrees E animationMedia animationFiles (db.assetsOf work.id)) ∧
  (value = "video".toList → MediaAgrees E videoMedia videoFiles (db.assetsOf work.id))

/-- **The rows on which the two compilers agree about a qualifier.** -/
def QualifierAgrees (resolved : Resolution) (db : Database) (work : Work)
    (q : Qualifier) : Prop :=
  match q.key with
  | .source => TextAgrees E ((db.sourcesOf work.id).map WorkSource.source) q.value
  | .tag => TextAgrees E (db.tagNamesOf work.id) (resolved.tag q.value)
  | .uid => ∀ source identity, parseSourceIdentity E.toCaseMap q.value = .ok (source, identity) →
      IdentityAgrees E (db.sourcesOf work.id) (fun row => truthy row.sourceCreatorId) source identity
  | .pid => ∀ source identity, parseSourceIdentity E.toCaseMap q.value = .ok (source, identity) →
      IdentityAgrees E (db.sourcesOf work.id) (fun row => some row.sourceWorkId) source identity
  | .repo => ∀ row ∈ db.sourcesOf work.id, ∀ repo ∈ db.subscriptionSources,
      repo.id = resolved.repo q.value → RepositoryAgrees E row repo
  | .has => HasAgrees E db work q.value
  | .posted => DateQualifierAgrees E work.postedAt q.value
  | .created => DateQualifierAgrees E (some work.createdAt) q.value
  | .updated => DateQualifierAgrees E (some work.updatedAt) q.value
  | _ => True

end

end Conditions

section Compiled

/-- The two compilers agree about a qualifier: both succeed, the condition is
two-valued where it is negated, and the expression is true of the document exactly
when the condition is true of the row, turned round by a negation. -/
def Compiled (E : FilterRuntime) (resolved : Resolution) (db : Database) (work : Work)
    (fields : List (Key × Field)) (q : Qualifier) : Prop :=
  ∃ c e, qualifierCondition E resolved q = .ok (some c) ∧
    (q.negated = true → c db work ≠ .unknown) ∧
    qualifierExpression E .works resolved fields .id q = .ok (some e) ∧
    e.satisfied E.foldCase (buildWorkDocument E db work).field =
      ((c db work).holds != q.negated)

/-- The fields of works. -/
def workFields : List (Key × Field) :=
  [(.repo, .repositoryIds), (.creator, .creatorIds), (.tag, .tags), (.source, .sources),
    (.uid, .sourceCreatorKeys), (.pid, .sourceWorkKeys), (.posted, .postedTs),
    (.created, .createdTs), (.updated, .updatedTs)]

theorem lookup_works : meiliField.lookup .works = some workFields := rfl

variable {E : FilterRuntime} {resolved : Resolution} {db : Database} {work : Work}

/-- A comparison for equality, turned round by a negation. -/
theorem satisfied_polar (fold : Text → Text) (document : Field → Value) (field : Field)
    (negated : Bool) (literal : Scalar) :
    (Expression.compare field (if negated then .ne else .eq) literal).satisfied fold document =
      ((Expression.compare field .eq literal).satisfied fold document != negated) := by
  cases negated with
  | true =>
    rw [if_pos rfl, Expression.satisfied_ne]
    simp
  | false => simp

theorem satisfied_negateIf (fold : Text → Text) (document : Field → Value) (negated : Bool)
    (e : Expression Field) :
    (negateIf negated e).satisfied fold document = (e.satisfied fold document != negated) := by
  cases negated with
  | true | false => simp [negateIf]

variable {q : Qualifier}

/-- A qualifier that becomes one comparison for equality. -/
theorem compiled_of_compare (c : Condition) (field : Field) (literal : Scalar)
    (hc : qualifierCondition E resolved q = .ok (some c)) (hknown : c db work ≠ .unknown)
    (he : qualifierExpression E .works resolved workFields .id q =
      .ok (some (.compare field (if q.negated then .ne else .eq) literal)))
    (h : (Expression.compare field .eq literal).satisfied E.foldCase
      (buildWorkDocument E db work).field = true ↔ (c db work).holds = true) :
    Compiled E resolved db work workFields q := by
  refine ⟨c, _, hc, fun _ => hknown, he, ?_⟩
  rw [satisfied_polar, Bool.eq_iff_iff.mpr h]

section References

variable {row : WorkSource} {q : Qualifier} {repo : SubscriptionSource}

/-- The repositories of a work source, as the index joins them. -/
theorem mem_repositoriesOf {M : CaseMap} {id : Uuid} :
    id ∈ repositoriesOf M db row ↔ ∃ repo ∈ db.subscriptionSources, repo.id = id ∧
      ((∃ i, truthy row.sourceCreatorId = some i ∧ repo.source = row.source ∧
          truthy repo.sourceCreatorId = some i) ∨
        ∃ u, truthy row.sourceUrl = some u ∧
          (truthy repo.sourceUrl).map (normalizeUrl M) = some (normalizeUrl M u)) := by
  unfold repositoriesOf repositoryByIdentity repositoryByUrl
  rw [mem_append]
  cases truthy row.sourceCreatorId <;> cases truthy row.sourceUrl <;>
    simp [mem_map, mem_filter, and_assoc, and_or_left, exists_or] <;> grind

/-- A filter for identifiers, or for the text that is none. -/
theorem satisfied_ids (fold : Text → Text) (ids : List Uuid) :
    ((Expression.joinOr (ids.map fun i => Expression.compare Field.id .eq (.ident i.val))).getD
        (.compare .id .eq (.text "__source_url_no_match__".toList))).satisfied fold
      (buildWorkDocument E db work).field = ids.any fun i => i = work.id := by
  have hfield : (buildWorkDocument E db work).field .id = .one (.ident work.id.val) := rfl
  have hid : ∀ i : Uuid, (Expression.compare Field.id .eq (.ident i.val)).satisfied fold
      (buildWorkDocument E db work).field = decide (i = work.id) := by
    intro i
    rw [Expression.satisfied_eq_ident _ _ hfield]
    exact decide_eq_decide.mpr (by rw [Fin.ext_iff, eq_comm])
  cases ids with
  | nil => exact Expression.satisfied_eq_ident_text _ _ hfield _
  | cons first rest =>
    have hjoin := Expression.satisfied_joinOr fold (buildWorkDocument E db work).field
      ((first :: rest).map fun i => Expression.compare Field.id .eq (.ident i.val))
    rw [any_map] at hjoin
    simp only [Function.comp_def, hid] at hjoin
    exact hjoin

/-- `source:`. -/
theorem compiled_source (hkey : q.key = .source)
    (h : TextAgrees E ((db.sourcesOf work.id).map WorkSource.source) q.value) :
    Compiled E resolved db work workFields q := by
  apply compiled_of_compare (sourceCondition q.value) .sources (.text q.value)
  · simp only [qualifierCondition, hkey]
  · exact isIn_ne_unknown _ _
  · simp only [qualifierExpression, hkey, resolvedValue]
    rfl
  have hfield : (buildWorkDocument E db work).field .sources =
      .many (((db.sourcesOf work.id).map WorkSource.source).map .text) := rfl
  rw [Expression.satisfied_eq_texts _ _ hfield, sourceCondition, holds_isIn_map]
  simp only [holds_of, decide_eq_true_eq]
  constructor
  · intro hfound
    obtain ⟨row, hrow, hsource⟩ := mem_map.mp (h hfound)
    exact ⟨row, hrow, hsource⟩
  · intro hrows
    obtain ⟨row, hrow, hsource⟩ := hrows
    exact ⟨row.source, mem_map_of_mem hrow, by rw [hsource]⟩

/-- The condition for a tag looks at all names. -/
theorem holds_tagCondition (value : Text) :
    (tagCondition value db work).holds = true ↔ value ∈ db.tagNamesOf work.id := by
  unfold tagCondition Database.tagNamesOf
  simp only [holds_or, holds_existsRow, holds_of, Bool.or_eq_true, any_eq_true,
    decide_eq_true_eq, mem_append, mem_flatMap, exists_eq_right]

/-- `tag:`. -/
theorem compiled_tag (hkey : q.key = .tag)
    (h : TextAgrees E (db.tagNamesOf work.id) (resolved.tag q.value)) :
    Compiled E resolved db work workFields q := by
  apply compiled_of_compare (tagCondition (resolved.tag q.value)) .tags
    (.text (resolved.tag q.value))
  · simp only [qualifierCondition, hkey]
  · exact Truth.or_ne_unknown (existsRow_ne_unknown _ _) (existsRow_ne_unknown _ _)
  · simp only [qualifierExpression, hkey, resolvedValue]
    rfl
  have hfield : (buildWorkDocument E db work).field .tags =
      .many ((db.tagNamesOf work.id).map .text) := rfl
  rw [Expression.satisfied_eq_texts _ _ hfield, holds_tagCondition]
  constructor
  · exact h
  · intro hmem
    exact ⟨_, hmem, rfl⟩

/-- `uid:` and `pid:`: the condition looks at a column, the document keeps the
entries of that column that are not empty. -/
theorem compiled_identity (column kept : WorkSource → Option Text) (field : Field)
    {source identity : Text} (hvalue : q.value = sourceKey source identity)
    (hc : qualifierCondition E resolved q =
      .ok (some (identityCondition column source identity)))
    (he : qualifierExpression E .works resolved workFields .id q =
      .ok (some (.compare field (if q.negated then .ne else .eq) (.text q.value))))
    (hfield : (buildWorkDocument E db work).field field =
      .many (((db.sourcesOf work.id).filterMap fun row =>
        (kept row).map (sourceKey row.source)).map .text))
    (hkept : ∀ row, column row = some identity ↔ kept row = some identity)
    (h : IdentityAgrees E (db.sourcesOf work.id) kept source identity) :
    Compiled E resolved db work workFields q := by
  apply compiled_of_compare _ _ _ hc (isIn_ne_unknown _ _) he
  rw [Expression.satisfied_eq_texts _ _ hfield, identityCondition, holds_isIn_map]
  simp only [holds_and, holds_of, Bool.and_eq_true, decide_eq_true_eq,
    holds_compare_eq, hkept]
  constructor
  · intro hfound
    obtain ⟨key, hkey, hfold⟩ := hfound
    obtain ⟨row, hrow, hsome⟩ := mem_filterMap.mp hkey
    obtain ⟨stored, hstored, rfl⟩ := Option.map_eq_some_iff.mp hsome
    obtain ⟨row', hrow', hsource, hid⟩ := h ⟨row, hrow, stored, hstored, hvalue ▸ hfold⟩
    exact ⟨row', hrow', hsource, hid⟩
  · intro hrows
    obtain ⟨row, hrow, hsource, hid⟩ := hrows
    refine ⟨sourceKey row.source identity, ?_, by rw [hvalue, hsource]⟩
    exact mem_filterMap.mpr ⟨row, hrow, by rw [hid]; rfl⟩

/-- `uid:`. -/
theorem compiled_uid (haccepted : Accepted E.toRuntime q) (hkey : q.key = .uid)
    (h : ∀ source identity, parseSourceIdentity E.toCaseMap q.value = .ok (source, identity) →
      IdentityAgrees E (db.sourcesOf work.id) (fun row => truthy row.sourceCreatorId) source
        identity) : Compiled E resolved db work workFields q := by
  obtain ⟨source, identity, hparse, hvalue, hne⟩ := haccepted.identity (.inl hkey)
  apply compiled_identity WorkSource.sourceCreatorId _ .sourceCreatorKeys hvalue _ _ rfl _ (h source identity hparse)
  · simp only [qualifierCondition, hkey, hparse, if_true]
  · simp only [qualifierExpression, hkey, resolvedValue]
    rfl
  · intro row
    rw [truthy_eq_some, and_iff_left hne]

/-- `pid:`. -/
theorem compiled_pid (haccepted : Accepted E.toRuntime q) (hkey : q.key = .pid)
    (h : ∀ source identity, parseSourceIdentity E.toCaseMap q.value = .ok (source, identity) →
      IdentityAgrees E (db.sourcesOf work.id) (fun row => some row.sourceWorkId) source identity) :
    Compiled E resolved db work workFields q := by
  obtain ⟨source, identity, hparse, hvalue, hne⟩ := haccepted.identity (.inr hkey)
  apply compiled_identity (fun row => some row.sourceWorkId) _ .sourceWorkKeys hvalue _ _ _ (fun row => Iff.rfl) (h source identity hparse)
  · simp only [qualifierCondition, hkey, hparse]
    rfl
  · simp only [qualifierExpression, hkey, resolvedValue]
    rfl
  · simp only [WorkDocument.field, buildWorkDocument, Option.map_some, filterMap_eq_map']

/-- `creator:`. -/
theorem compiled_creator (hkey : q.key = .creator) : Compiled E resolved db work workFields q := by
  apply compiled_of_compare (creatorCondition (resolved.creator q.value)) .creatorIds
    (.ident (resolved.creator q.value).val)
  · simp only [qualifierCondition, hkey]
  · exact isIn_ne_unknown _ _
  · simp only [qualifierExpression, hkey, resolvedValue]
    rfl
  have hfield : (buildWorkDocument E db work).field .creatorIds =
      .many (((db.sourcesOf work.id).flatMap fun row =>
        (db.creatorsOf row).filterMap SourceCreator.creatorId).map fun i => .ident i.val) := rfl
  rw [Expression.satisfied_eq_idents _ _ hfield, creatorCondition, holds_isIn_map]
  simp only [holds_existsRow, any_eq_true, holds_compare_eq, mem_flatMap, mem_filterMap]
  constructor
  · intro hfound
    obtain ⟨creator, ⟨row, hrow, joined, hjoin, hid⟩, hval⟩ := hfound
    exact ⟨row, hrow, joined, hjoin, by rw [hid, Fin.val_injective hval]⟩
  · intro hrows
    obtain ⟨row, hrow, joined, hjoin, hid⟩ := hrows
    exact ⟨resolved.creator q.value, ⟨row, hrow, joined, hjoin, hid⟩, rfl⟩

/-- The join on source and creator. -/
theorem joined_on_identity
    (h : repo.source = row.source →
      ¬(row.sourceCreatorId = some [] ∧ repo.sourceCreatorId = some [])) :
    (repo.source = row.source ∧ ∃ i, row.sourceCreatorId = some i ∧ repo.sourceCreatorId = some i) ↔
      ∃ i, truthy row.sourceCreatorId = some i ∧ repo.source = row.source ∧
        truthy repo.sourceCreatorId = some i := by
  simp only [truthy_eq_some]
  constructor
  · intro hjoin
    obtain ⟨hsource, i, hrow, hrepo⟩ := hjoin
    have hne : i ≠ [] := by
      intro hnil
      exact h hsource ⟨hnil ▸ hrow, hnil ▸ hrepo⟩
    exact ⟨i, ⟨hrow, hne⟩, hsource, hrepo, hne⟩
  · intro hjoin
    obtain ⟨i, ⟨hrow, _⟩, hsource, hrepo, _⟩ := hjoin
    exact ⟨hsource, i, hrow, hrepo⟩

/-- The join on URLs. -/
theorem joined_on_url
    (h : ∀ u v, row.sourceUrl = some u → repo.sourceUrl = some v →
      (sqlNormalizedUrl E v = sqlNormalizedUrl E u ↔
        u ≠ [] ∧ v ≠ [] ∧ normalizeUrl E.toCaseMap v = normalizeUrl E.toCaseMap u)) :
    (∃ u v, row.sourceUrl = some u ∧ repo.sourceUrl = some v ∧
        sqlNormalizedUrl E v = sqlNormalizedUrl E u) ↔
      ∃ u, truthy row.sourceUrl = some u ∧
        (truthy repo.sourceUrl).map (normalizeUrl E.toCaseMap) =
          some (normalizeUrl E.toCaseMap u) := by
  simp only [truthy_eq_some, Option.map_eq_some_iff]
  constructor
  · intro hjoin
    obtain ⟨u, v, hrow, hrepo, hsame⟩ := hjoin
    obtain ⟨hu, hv, hnormal⟩ := (h u v hrow hrepo).mp hsame
    exact ⟨u, ⟨hrow, hu⟩, v, ⟨hrepo, hv⟩, hnormal⟩
  · intro hjoin
    obtain ⟨u, ⟨hrow, hu⟩, v, ⟨hrepo, hv⟩, hnormal⟩ := hjoin
    exact ⟨u, v, hrow, hrepo, (h u v hrow hrepo).mpr ⟨hu, hv, hnormal⟩⟩

/-- The condition of the join, with its tests for `NULL`. -/
theorem holds_repositoryJoin (row : WorkSource) (repo : SubscriptionSource) :
    (repositoryJoin E row repo).holds = true ↔
      (repo.source = row.source ∧
        ∃ i, row.sourceCreatorId = some i ∧ repo.sourceCreatorId = some i) ∨
      ∃ u v, row.sourceUrl = some u ∧ repo.sourceUrl = some v ∧
        sqlNormalizedUrl E v = sqlNormalizedUrl E u := by
  unfold repositoryJoin
  rw [holds_or, Bool.or_eq_true]
  apply or_congr
  · cases row.sourceCreatorId <;> cases repo.sourceCreatorId <;> simp
  · cases row.sourceUrl <;> cases repo.sourceUrl <;> simp

/-- `repo:`. -/
theorem compiled_repo (hkey : q.key = .repo)
    (h : ∀ row ∈ db.sourcesOf work.id, ∀ repo ∈ db.subscriptionSources,
      repo.id = resolved.repo q.value → RepositoryAgrees E row repo) :
    Compiled E resolved db work workFields q := by
  apply compiled_of_compare (repositoryCondition E (resolved.repo q.value)) .repositoryIds
    (.ident (resolved.repo q.value).val)
  · simp only [qualifierCondition, hkey]
  · exact existsRow_ne_unknown _ _
  · simp only [qualifierExpression, hkey, resolvedValue]
    rfl
  have hfield : (buildWorkDocument E db work).field .repositoryIds =
      .many (((db.sourcesOf work.id).flatMap (repositoriesOf E.toCaseMap db)).map fun i =>
        .ident i.val) := rfl
  rw [Expression.satisfied_eq_idents _ _ hfield]
  simp only [repositoryCondition, holds_existsRow, any_eq_true, holds_and,
    holds_of, Bool.and_eq_true, decide_eq_true_eq, mem_flatMap]
  constructor
  · intro hfound
    obtain ⟨i, ⟨row, hrow, hi⟩, hval⟩ := hfound
    obtain ⟨repo, hrepo, hid, hjoin⟩ := mem_repositoriesOf.mp (Fin.val_injective hval ▸ hi)
    obtain ⟨hidentity, hurl⟩ := h row hrow repo hrepo hid
    refine ⟨row, hrow, repo, hrepo, (holds_repositoryJoin row repo).mpr ?_, hid⟩
    rwa [joined_on_identity hidentity, joined_on_url hurl]
  · intro hrows
    obtain ⟨row, hrow, repo, hrepo, hjoin, hid⟩ := hrows
    obtain ⟨hidentity, hurl⟩ := h row hrow repo hrepo hid
    refine ⟨resolved.repo q.value, ⟨row, hrow, mem_repositoriesOf.mpr ⟨repo, hrepo, hid, ?_⟩⟩, rfl⟩
    rw [← joined_on_identity hidentity, ← joined_on_url hurl]
    exact (holds_repositoryJoin row repo).mp hjoin

/-- `url:`. -/
theorem compiled_url (hkey : q.key = .url) : Compiled E resolved db work workFields q := by
  refine ⟨urlCondition (resolved.url q.value).workIds, urlExpression .works resolved .id q, ?_,
    fun _ => isIn_ne_unknown _ _, ?_, ?_⟩
  · simp only [qualifierCondition, hkey]
  · simp only [qualifierExpression, hkey]
  · unfold urlExpression
    simp only [satisfied_negateIf, ResolvedSourceUrl.idsFor]
    congr 1
    rw [satisfied_ids]
    simp only [urlCondition, isIn, holds_of]

end References

section States

/-- The `is:` values that works have. -/
def workStates : List Text :=
  ["favorite".toList, "nsfw".toList, "sfw".toList, "ai".toList, "human".toList,
    "visible".toList, "trashed".toList]

theorem workStates_of_targets : ∀ value ∈ isTargets.map Prod.fst,
    SearchTarget.works ∈ (isTargets.lookup value).getD [] → value ∈ workStates := by
  decide

theorem holds_visibleExpression :
    (visibleExpression db work).holds = decide (db.visibilityOf work.id = .visible) := by
  unfold visibleExpression
  rw [Truth.holds_not (existsRow_ne_unknown _ _), holds_existsRow, Bool.eq_iff_iff,
    Bool.not_eq_true', decide_eq_true_eq, any_eq_false]
  simp only [holds_and, holds_of, Bool.and_eq_true, decide_eq_true_eq, not_and, not_not]
  constructor
  · intro h
    by_contra hne
    obtain ⟨state, hstate, hid⟩ := db.exists_state_of_visibility_ne hne
    have hvis := db.visibility_of_state hstate
    rw [hid] at hvis
    exact hne (hvis.trans (h state hstate hid))
  · intro h state hstate hid
    rw [← db.visibility_of_state hstate, hid, h]

theorem holds_trashedExpression :
    (trashedExpression db work).holds = decide (db.visibilityOf work.id = .trashed) := by
  unfold trashedExpression
  rw [holds_existsRow, Bool.eq_iff_iff, decide_eq_true_eq, any_eq_true]
  simp only [holds_and, holds_of, Bool.and_eq_true, decide_eq_true_eq]
  constructor
  · intro h
    obtain ⟨state, hstate, hid, hvis⟩ := h
    rw [← hid, db.visibility_of_state hstate, hvis]
  · intro h
    obtain ⟨state, hstate, hid⟩ := db.exists_state_of_visibility_ne (by rw [h]; decide)
    refine ⟨state, hstate, hid, ?_⟩
    rw [← db.visibility_of_state hstate, hid, h]

theorem foldCase_plain (E : FilterRuntime) {t : Text} (h : plainLower t = true) :
    E.foldCase t = t := by
  rw [E.foldCase_ascii t (ascii_of_plainLower h)]
  simp only [plainLower, Bool.and_eq_true, decide_eq_true_eq] at h
  exact h.2

/-- Case does not make two visibilities the same. -/
theorem foldCase_visibility (E : FilterRuntime) (a b : Visibility) :
    E.foldCase a.text = E.foldCase b.text ↔ a = b := by
  have hplain : ∀ c : Visibility, plainLower c.text = true := by
    intro c
    cases c <;> decide
  rw [foldCase_plain E (hplain a), foldCase_plain E (hplain b)]
  constructor
  · cases a <;> cases b <;> decide
  · intro h
    rw [h]

theorem satisfied_visibility (E : FilterRuntime) (db : Database) (work : Work) (v : Visibility) :
    (Expression.compare Field.visibility .eq (.text v.text)).satisfied E.foldCase
      (buildWorkDocument E db work).field = decide (db.visibilityOf work.id = v) := by
  have hfield : (buildWorkDocument E db work).field .visibility =
      .one (.text (db.visibilityOf work.id).text) := rfl
  rw [Expression.satisfied_eq_text _ _ hfield]
  exact decide_eq_decide.mpr (foldCase_visibility E _ _)

/-- What a value of `is:` says of a row, in the database and in the index. -/
theorem state_agrees (E : FilterRuntime) (db : Database) (work : Work) {value : Text} (h : value ∈ workStates) :
    ∃ c field literal, isCondition value = some c ∧ c db work ≠ .unknown ∧
      (isField.lookup .works).bind (·.lookup value) = some (field, literal) ∧
      (Expression.compare field .eq literal).satisfied E.foldCase
        (buildWorkDocument E db work).field = (c db work).holds := by
  have hbool : ∀ (field : Field) (b c : Bool),
      (buildWorkDocument E db work).field field = .one (.bool b) →
      (Expression.compare field .eq (.bool c)).satisfied E.foldCase
        (buildWorkDocument E db work).field = (b == c) :=
    fun field b c hfield => Expression.satisfied_eq_bool _ _ hfield c
  simp only [workStates, mem_cons, not_mem_nil, or_false] at h
  rcases h with rfl | rfl | rfl | rfl | rfl | rfl | rfl
  · refine ⟨_, _, _, rfl, of_ne_unknown _, rfl, ?_⟩
    rw [hbool _ work.isFavorite _ rfl, holds_of, beq_true]
  · refine ⟨_, _, _, rfl, of_ne_unknown _, rfl, ?_⟩
    rw [hbool _ work.isNsfw _ rfl, holds_of, beq_true]
  · refine ⟨_, _, _, rfl, of_ne_unknown _, rfl, ?_⟩
    rw [hbool _ work.isNsfw _ rfl, holds_of, beq_false]
  · refine ⟨_, _, _, rfl, of_ne_unknown _, rfl, ?_⟩
    rw [hbool _ work.isAiGenerated _ rfl, holds_of, beq_true]
  · refine ⟨_, _, _, rfl, of_ne_unknown _, rfl, ?_⟩
    rw [hbool _ work.isAiGenerated _ rfl, holds_of, beq_false]
  · refine ⟨visibleExpression, _, _, rfl, ?_, rfl, ?_⟩
    · unfold visibleExpression existsRow
      cases any _ _ <;> decide
    · rw [holds_visibleExpression]
      exact satisfied_visibility E db work .visible
  · refine ⟨trashedExpression, _, _, rfl, existsRow_ne_unknown _ _, rfl, ?_⟩
    rw [holds_trashedExpression]
    exact satisfied_visibility E db work .trashed

theorem workState_of_accepted {q : Qualifier} (haccepted : Accepted E.toRuntime q)
    (hkey : q.key = .is) (hgroupable : groupable .works q = true) : q.value ∈ workStates := by
  apply workStates_of_targets q.value (haccepted.is_value hkey)
  simpa [groupable, hkey] using hgroupable

/-- `is:`. -/
theorem compiled_is {q : Qualifier} (haccepted : Accepted E.toRuntime q) (hkey : q.key = .is)
    (hgroupable : groupable .works q = true) : Compiled E resolved db work workFields q := by
  obtain ⟨c, field, literal, hc, hknown, hfield, hagree⟩ :=
    state_agrees E db work (workState_of_accepted haccepted hkey hgroupable)
  apply compiled_of_compare c field literal _ hknown
  · simp only [qualifierExpression, hkey, isExpression, hfield]
    rfl
  · rw [hagree]
  · simp only [qualifierCondition, hkey, hc]

end States

section Contents

theorem holds_hasTags :
    (hasTagsExpression db work).holds = decide (db.tagNamesOf work.id ≠ []) := by
  have hnames : db.tagNamesOf work.id = [] ↔
      db.workTagsOf work.id = [] ∧ db.workSourceTagsOf work.id = [] := by
    unfold Database.tagNamesOf
    rw [append_eq_nil_iff, flatMap_eq_nil_iff, flatMap_eq_nil_iff]
    apply and_congr
    · constructor
      · intro h
        apply eq_nil_iff_forall_not_mem.mpr
        intro row hrow
        exact db.tagNames_ne_nil (db.workTag_tag row (mem_filter.mp hrow).1) (h row hrow)
      · intro h row hrow
        rw [h] at hrow
        cases hrow
    · constructor
      · intro h
        apply eq_nil_iff_forall_not_mem.mpr
        intro row hrow
        obtain ⟨source, _, hmem⟩ := mem_flatMap.mp hrow
        exact db.tagNames_ne_nil (db.workSourceTag_tag row (mem_filter.mp hmem).1) (h row hrow)
      · intro h row hrow
        rw [h] at hrow
        cases hrow
  unfold hasTagsExpression
  rw [holds_or, holds_existsRow, holds_existsRow, Bool.eq_iff_iff, decide_eq_true_eq, ne_eq,
    hnames]
  cases db.workTagsOf work.id <;> cases db.workSourceTagsOf work.id <;> simp [Truth.holds]

theorem description_agrees {description : Text} (h : DescriptionAgrees description) :
    decide ((btrim description).length > 0) = decide (strip description ≠ []) := by
  apply decide_eq_decide.mpr
  rw [gt_iff_lt, length_pos_iff, ne_eq, ne_eq, btrim_eq_nil_iff, strip_eq_nil_iff]
  apply not_congr
  constructor
  · intro hblank c hc
    rw [hblank c hc]
    decide
  · exact h

/-- Two lists with the same members have as many different ones. -/
theorem length_dedup_congr {α : Type} [DecidableEq α] {l m : List α} (h : ∀ x, x ∈ l ↔ x ∈ m) :
    l.dedup.length = m.dedup.length := by
  rw [← card_toFinset, ← card_toFinset]
  congr 1
  ext x
  rw [mem_toFinset, mem_toFinset, h x]

theorem holds_multipleAssets :
    (isIn work.id (multiAssetIds db)).holds =
      decide ((((db.assetsOf work.id).map Prod.snd).map Asset.id).dedup.length > 1) := by
  have hlength : (((db.assetsOf work.id).map Prod.snd).map Asset.id).dedup.length =
      ((db.assetSourcesOf work.id).map AssetSource.assetId).dedup.length := by
    apply length_dedup_congr
    intro assetId
    rw [map_map]
    exact db.mem_assetIds_iff work.id assetId
  unfold isIn multiAssetIds
  rw [hlength, holds_of, Bool.eq_iff_iff, any_eq_true, decide_eq_true_eq]
  constructor
  · intro h
    obtain ⟨workId, hmem, hid⟩ := h
    rw [← of_decide_eq_true hid]
    exact of_decide_eq_true (mem_filter.mp hmem).2
  · intro h
    refine ⟨work.id, mem_filter.mpr ⟨?_, decide_eq_true h⟩, decide_eq_true rfl⟩
    have hne : (db.assetSourcesOf work.id) ≠ [] := by
      intro hnil
      rw [hnil] at h
      simp at h
    obtain ⟨row, hrow⟩ := exists_mem_of_ne_nil _ hne
    obtain ⟨source, hsource, _⟩ := mem_flatMap.mp hrow
    obtain ⟨hstored, hid⟩ := mem_filter.mp hsource
    exact mem_map.mpr ⟨source, hstored, of_decide_eq_true hid⟩

/-- Media of a kind, told apart by what the two look at. -/
theorem holds_mediaExists {kind : MediaKind} {files : FileKind}
    (h : MediaAgrees E kind files (db.assetsOf work.id)) :
    (mediaExists E kind db work).holds =
      ((db.assetsOf work.id).map Prod.snd).any (files.matches E.toCaseMap) := by
  have hrow : ∀ row ∈ db.assetsOf work.id, (kind.condition E row).holds = true ↔
      E.sqlLower row.1.role ∈ kind.roles ∨ files.matches E.toCaseMap row.2 = true := by
    intro row hmem
    unfold MediaKind.condition FileKind.matches
    simp only [holds_or, holds_of, Bool.or_eq_true, decide_eq_true_eq, or_assoc]
    rw [h.mime row hmem, h.name row hmem, decide_eq_true_eq]
  unfold mediaExists
  rw [holds_existsRow, any_map, Bool.eq_iff_iff, any_eq_true, any_eq_true]
  constructor
  · intro hfound
    obtain ⟨row, hmem, hholds⟩ := hfound
    rcases (hrow row hmem).mp hholds with hrole | hmatch
    · exact h.role ⟨row, hmem, hrole⟩
    · exact ⟨row, hmem, hmatch⟩
  · intro hfound
    obtain ⟨row, hmem, hmatch⟩ := hfound
    exact ⟨row, hmem, (hrow row hmem).mpr (.inr hmatch)⟩

/-- What a value of `has:` says of a row, in the database and in the index. -/
theorem content_agrees {value : Text} (hvalue : value ∈ supportedHas)
    (h : HasAgrees E db work value) :
    ∃ c field, hasCondition E value = some c ∧ c db work ≠ .unknown ∧
      (hasField.lookup .works).bind (·.lookup value) = some field ∧
      (buildWorkDocument E db work).field field = .one (.bool (c db work).holds) := by
  obtain ⟨hdescription, himage, hanimation, hvideo⟩ := h
  simp only [supportedHas, mem_cons, not_mem_nil, or_false] at hvalue
  rcases hvalue with rfl | rfl | rfl | rfl | rfl | rfl
  · refine ⟨hasTagsExpression, _, rfl,
      Truth.or_ne_unknown (existsRow_ne_unknown _ _) (existsRow_ne_unknown _ _), rfl, ?_⟩
    rw [holds_hasTags]
    rfl
  · refine ⟨_, _, rfl, of_ne_unknown _, rfl, ?_⟩
    rw [holds_of, description_agrees (hdescription rfl)]
    rfl
  · refine ⟨_, _, rfl, isIn_ne_unknown _ _, rfl, ?_⟩
    rw [holds_multipleAssets]
    rfl
  · refine ⟨mediaExists E imageMedia, _, rfl, existsRow_ne_unknown _ _, rfl, ?_⟩
    rw [holds_mediaExists (himage rfl)]
    rfl
  · refine ⟨mediaExists E animationMedia, _, rfl, existsRow_ne_unknown _ _, rfl, ?_⟩
    rw [holds_mediaExists (hanimation rfl)]
    rfl
  · refine ⟨mediaExists E videoMedia, _, rfl, existsRow_ne_unknown _ _, rfl, ?_⟩
    rw [holds_mediaExists (hvideo rfl)]
    rfl

/-- `has:`. -/
theorem compiled_has {q : Qualifier} (hkey : q.key = .has) (hvalue : q.value ∈ supportedHas)
    (h : HasAgrees E db work q.value) : Compiled E resolved db work workFields q := by
  obtain ⟨c, field, hc, hknown, hfield, hdocument⟩ := content_agrees hvalue h
  refine ⟨c, .compare field .eq (.bool !q.negated), ?_, fun _ => hknown, ?_, ?_⟩
  · simp only [qualifierCondition, hkey, hc]
  · simp only [qualifierExpression, hkey, hasExpression, hfield]
    rfl
  · rw [Expression.satisfied_eq_bool _ _ hdocument]
    cases (c db work).holds <;> cases q.negated <;> rfl

end Contents

section Dates

theorem dateOperator_ne (operator : Text) : dateOperator operator ≠ .ne := by
  unfold dateOperator
  split
  · decide
  split
  · decide
  split
  · decide
  split <;> decide

variable {t seconds : Int} {bounds : DateBounds} {fold : Text → Text} {document : Field → Value}
  {field : Field}

/-- An instant before a whole second has no later timestamp, and the other way
round. -/
theorem timestamp_le (E : FilterRuntime) (h : t ≤ seconds * 1000000) : E.timestamp t ≤ seconds := by
  have hmono := E.timestamp_mono _ _ h
  rwa [E.timestamp_second] at hmono

theorem le_timestamp (E : FilterRuntime) (h : seconds * 1000000 ≤ t) : seconds ≤ E.timestamp t := by
  have hmono := E.timestamp_mono _ _ h
  rwa [E.timestamp_second] at hmono

/-- The end of a date as the database takes it. -/
def sqlStop (stop : Option Int) : Option Int :=
  stop.bind fun seconds => if seconds = 0 then none else some (seconds * 1000000)

theorem fromTimestamp_ok (h : -62135596800 ≤ seconds ∧ seconds < 253402300800) :
    fromTimestamp seconds = .ok (seconds * 1000000) :=
  if_pos h

theorem fromTimestampOpt_ok {stop : Option Int}
    (h : ∀ seconds ∈ stop.toList, -62135596800 ≤ seconds ∧ seconds < 253402300800) :
    fromTimestampOpt stop = .ok (sqlStop stop) := by
  cases stop with
  | none => rfl
  | some seconds =>
    have hok := fromTimestamp_ok (h seconds (by simp))
    by_cases hzero : seconds = 0
    · simp [fromTimestampOpt, sqlStop, hzero]
    · simp [fromTimestampOpt, sqlStop, hzero, hok, Except.map]

/-- **A date on an instant.**  Comparing the instant with the bounds and comparing
its timestamp with them is the same, unless the instant lies inside the second of a
bound. -/
theorem dateCondition_agrees (hop : bounds.operator ≠ .ne)
    (hordered : ∀ stop ∈ bounds.stop, bounds.start ≤ stop) (h : DateAgrees E bounds t)
    (hfield : document field = .one (.number (E.timestamp t))) :
    (dateCondition bounds.operator (bounds.start * 1000000) (sqlStop bounds.stop)
        (some t)).holds =
      (dateExpression field bounds).satisfied fold document := by
  obtain ⟨operator, start, stop⟩ := bounds
  have hnumber := Expression.satisfied_number fold document (some (E.timestamp t)) hfield
  have hstart₁ := @timestamp_le t start E
  have hstart₂ := @le_timestamp t start E
  cases operator with
  | ne => exact absurd rfl hop
  | gt | ge | lt | le =>
    simp only [DateAgrees, dateCondition, dateExpression, holds_compare_some, hnumber,
      Option.any_some] at h ⊢
    exact decide_eq_decide.mpr (by omega)
  | eq =>
    cases stop with
    | none =>
      simp only [DateAgrees, dateCondition, dateExpression, sqlStop, Option.bind_none,
        holds_compare_some, hnumber, Option.any_some] at h ⊢
      apply decide_eq_decide.mpr
      constructor
      · intro heq
        rw [heq, E.timestamp_second]
      · intro heq
        by_contra hne
        exact h ⟨heq, hne⟩
    | some stop =>
      have hstop₁ := @timestamp_le t stop E
      have hstop₂ := @le_timestamp t stop E
      by_cases hzero : stop = 0
      · subst hzero
        simp only [DateAgrees, dateCondition, dateExpression, sqlStop, Option.bind_some,
          holds_compare_some, Expression.satisfied_and, hnumber, Option.any_some, if_true] at h ⊢
        rw [Bool.eq_iff_iff, Bool.and_eq_true, decide_eq_true_eq, decide_eq_true_eq,
          decide_eq_true_eq]
        constructor
        · intro heq
          have hzero : start ≤ 0 := hordered 0 rfl
          rw [heq, E.timestamp_second]
          omega
        · intro hrange
          by_contra hne
          exact h ⟨hrange.1, hrange.2, hne⟩
      · simp only [DateAgrees, dateCondition, dateExpression, sqlStop, Option.bind_some,
          holds_and, holds_compare_some, Expression.satisfied_and, hnumber,
          Option.any_some, if_neg hzero] at h ⊢
        rw [Bool.eq_iff_iff, Bool.and_eq_true, Bool.and_eq_true, decide_eq_true_eq,
          decide_eq_true_eq, decide_eq_true_eq, decide_eq_true_eq]
        omega

/-- No comparison is true of `NULL`. -/
theorem holds_dateCondition_none (operator : Comparison) (start : Int) (stop : Option Int) :
    (dateCondition operator start stop none).holds = false := by
  cases operator <;> cases stop <;> rfl

/-- No comparison is true of an absent timestamp. -/
theorem satisfied_dateExpression_null (hop : bounds.operator ≠ .ne)
    (hfield : document field = .null) :
    (dateExpression field bounds).satisfied fold document = false := by
  obtain ⟨operator, start, stop⟩ := bounds
  have hnumber := Expression.satisfied_number fold document none hfield
  cases operator with
  | ne => exact absurd rfl hop
  | gt | ge | lt | le => simp [dateExpression, hnumber]
  | eq => cases stop <;> simp [dateExpression, hnumber]

/-- The bounds of an accepted date. -/
theorem dateBounds_ok {value : Text} {parsed : IsoDateTime}
    (h : E.fromisoformat (replaceZulu (splitOperator value).2) = some parsed) :
    ∃ bounds, dateBounds E value = .ok bounds ∧ bounds.operator ≠ .ne ∧
      ∀ stop ∈ bounds.stop, bounds.start ≤ stop := by
  unfold dateBounds
  simp only [h]
  refine ⟨_, rfl, dateOperator_ne _, ?_⟩
  intro stop hstop
  simp only at hstop
  split at hstop
  · cases hstop
  cases hstop
  apply E.timestamp_mono
  have hmicros := E.timeOfDay _ _ h
  unfold instant endOfDay
  simp only
  omega

section

variable (hkey : q.key ∈ dateKeys)
include hkey

theorem key_cases :
    q.key = .posted ∨ q.key = .created ∨ q.key = .updated := by
  simpa [dateKeys] using hkey

/-- A date is never negated. -/
theorem positive_of_date (haccepted : Accepted E.toRuntime q) :
    q.negated = false := by
  by_contra hneg
  have hmem := haccepted.negatable (by simpa using hneg)
  revert hmem
  rcases key_cases hkey with hkey | hkey | hkey <;> rw [hkey] <;> decide

theorem qualifierCondition_date :
    qualifierCondition E resolved q =
      (sqlDateExpression E (dateColumn q.key) q.value).map some := by
  unfold qualifierCondition
  rcases key_cases hkey with hkey | hkey | hkey <;> rw [hkey] <;> rfl

theorem qualifierExpression_date :
    qualifierExpression E .works resolved workFields .id q =
      (dateQualifier E workFields q).map some := by
  unfold qualifierExpression
  rcases key_cases hkey with hkey | hkey | hkey <;> rw [hkey]

/-- The field of a date has its timestamp. -/
theorem dateField (E : FilterRuntime) (db : Database) (work : Work) :
    ∃ field, workFields.lookup q.key = some field ∧ (buildWorkDocument E db work).field field =
      ((dateColumn q.key work).map E.timestamp).elim .null fun n => .one (.number n) := by
  rcases key_cases hkey with hkey | hkey | hkey <;> rw [hkey] <;> exact ⟨_, rfl, rfl⟩

/-- `posted:`, `created:` and `updated:`. -/
theorem compiled_date (haccepted : Accepted E.toRuntime q)
    (h : DateQualifierAgrees E (dateColumn q.key work) q.value) :
    Compiled E resolved db work workFields q := by
  obtain ⟨field, hlookup, hfield⟩ := dateField hkey E db work
  obtain ⟨parsed, hparsed⟩ := haccepted.date (by simpa [dateKeys] using hkey)
  obtain ⟨bounds, hbounds, hop, hordered⟩ := dateBounds_ok hparsed
  obtain ⟨hyears, hinstant⟩ := h bounds hbounds
  have hpositive := positive_of_date hkey haccepted
  have hstart := fromTimestamp_ok (hyears bounds.start mem_cons_self)
  have hstop := fromTimestampOpt_ok fun seconds hs => hyears seconds (mem_cons_of_mem _ hs)
  refine ⟨fun _ row => dateCondition bounds.operator (bounds.start * 1000000)
      (sqlStop bounds.stop) (dateColumn q.key row), dateExpression field bounds, ?_, ?_, ?_, ?_⟩
  · rw [qualifierCondition_date hkey, sqlDateExpression, hbounds]
    simp only [hstart, hstop]
    rfl
  · intro hneg
    rw [hpositive] at hneg
    cases hneg
  · rw [qualifierExpression_date hkey, dateQualifier, hlookup]
    simp only [hbounds, hpositive]
    rfl
  rw [hpositive, Bool.bne_false]
  show _ = (dateCondition bounds.operator (bounds.start * 1000000) (sqlStop bounds.stop)
    (dateColumn q.key work)).holds
  cases hcolumn : dateColumn q.key work with
  | some t =>
    rw [hcolumn] at hfield
    exact (dateCondition_agrees hop hordered (hinstant t hcolumn) hfield).symm
  | none =>
    rw [hcolumn] at hfield
    rw [holds_dateCondition_none, satisfied_dateExpression_null hop hfield]

end

end Dates

/-- **The compilers agree about every qualifier** that the database supports, on the
rows of `QualifierAgrees`. -/
theorem compiled_of_agrees (haccepted : Accepted E.toRuntime q)
    (hgroupable : groupable .works q = true) (hkey : q.key ∈ supportedKeys)
    (hhas : q.key = .has → q.value ∈ supportedHas) (h : QualifierAgrees E resolved db work q) :
    Compiled E resolved db work workFields q := by
  unfold QualifierAgrees at h
  cases hcase : q.key with
  | type | sort => simp [groupable, hcase] at hgroupable
  | status | kind | synced => exact absurd (hcase ▸ hkey) (by decide)
  | repo => exact compiled_repo hcase (by simpa only [hcase] using h)
  | creator => exact compiled_creator hcase
  | tag => exact compiled_tag hcase (by simpa only [hcase] using h)
  | source => exact compiled_source hcase (by simpa only [hcase] using h)
  | is => exact compiled_is haccepted hcase hgroupable
  | has => exact compiled_has hcase (hhas hcase) (by simpa only [hcase] using h)
  | uid => exact compiled_uid haccepted hcase (by simpa only [hcase] using h)
  | pid => exact compiled_pid haccepted hcase (by simpa only [hcase] using h)
  | url => exact compiled_url hcase
  | posted | created | updated =>
    apply compiled_date (by rw [hcase]; decide) haccepted
    rw [hcase] at h ⊢
    exact h

end Compiled

end FilterAgreement
