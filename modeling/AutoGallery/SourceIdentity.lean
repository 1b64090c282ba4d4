import AutoGallery.PyText

/-!
# Source identities and source URLs

The parsing of `source/id` identities and of public source URLs that the search
language shares with other services.  What the URL library and the providers do
is a parameter: the host of a URL, and each provider's own reading of one.  A
reading may raise `ValueError`, which is passed on.
-/

namespace SourceIdentity

open PyText

def identitySources : List Text :=
  ["pixiv".toList, "x".toList, "iwara".toList, "danbooru".toList, "weibo".toList,
    "bilibili".toList, "pinterest".toList, "lofter".toList, "manual".toList]

def publicUrlSources : List Text :=
  ["pixiv".toList, "x".toList, "iwara".toList, "danbooru".toList, "weibo".toList,
    "bilibili".toList, "pinterest".toList, "lofter".toList]

inductive UrlKind
  | creator | work
deriving DecidableEq

/-- `ProviderSearchURL`. -/
structure ProviderSearchUrl where
  kind : UrlKind
  normalizedUrl : Text

/-- `ParsedSourceURL`. -/
structure ParsedSourceUrl where
  source : Text
  kind : UrlKind
  normalizedUrl : Text
deriving DecidableEq

/-- Case conversion, `urlparse(candidate).hostname` and
`registry.get(source).parse_search_url(candidate)`; the error is the message of
the `ValueError`. -/
structure UrlRuntime extends CaseMap where
  hostname : Text → Except Text (Option Text)
  parseSearchUrl : Text → Text → Except Text (Option ProviderSearchUrl)

/-- `host == domain or host.endswith("." + domain)`. -/
def underDomain (host domain : Text) : Bool :=
  host = domain || endswith host ('.' :: domain)

/-- `_source_for_hostname`. -/
def sourceForHostname (R : UrlRuntime) (hostname : Text) : Option Text :=
  let host := R.lower (hostname.rdropWhile (· = '.'))
  if underDomain host "pixiv.net".toList then some "pixiv".toList
  else if underDomain host "x.com".toList || underDomain host "twitter.com".toList then
    some "x".toList
  else if underDomain host "iwara.tv".toList then some "iwara".toList
  else if host = "danbooru.donmai.us".toList then some "danbooru".toList
  else if underDomain host "weibo.com".toList || underDomain host "weibo.cn".toList then
    some "weibo".toList
  else if underDomain host "bilibili.com".toList then some "bilibili".toList
  else if startswith host "pinterest.".toList || startswith host "www.pinterest.".toList then
    some "pinterest".toList
  else if endswith host ".lofter.com".toList then some "lofter".toList
  else none

/-- `normalize_source_name`. -/
def normalizeSourceName (M : CaseMap) (value : Text) : Text :=
  let normalized := M.lower (strip value)
  if normalized = "twitter".toList then "x".toList else normalized

/-- `parse_source_identity`. -/
def parseSourceIdentity (M : CaseMap) (value : Text) : Except Text (Text × Text) :=
  if '/' ∉ value then .error "Source identities use the format source/id.".toList
  else
    let rawSource := (splitAt value '/').1
    let source := normalizeSourceName M rawSource
    let identity := strip (splitAt value '/').2
    if source ∉ identitySources then
      let shown := if strip rawSource = [] then rawSource else strip rawSource
      .error ("Unsupported identity source: ".toList ++ shown)
    else if identity = [] then .error "Source identity is missing its ID.".toList
    else if identity.any isspace then
      .error "Source identity IDs cannot contain whitespace.".toList
    else .ok (source, identity)

/-- `value.lower().startswith(("http://", "https://"))`. -/
def isHttp (M : CaseMap) (value : Text) : Bool :=
  startswith (M.lower value) "http://".toList || startswith (M.lower value) "https://".toList

/-- `parse_source_url`. -/
def parseSourceUrl (R : UrlRuntime) (value : Text) : Except Text (Option ParsedSourceUrl) :=
  let candidate := strip value
  if ¬isHttp R.toCaseMap candidate then .ok none
  else
    match R.hostname candidate with
    | .error e => .error e
    | .ok hostname =>
      match sourceForHostname R (hostname.getD []) with
      | none => .ok none
      | some source =>
        if source ∉ publicUrlSources then .ok none
        else
          match R.parseSearchUrl source candidate with
          | .error e => .error e
          | .ok none => .ok none
          | .ok (some parsed) => .ok (some ⟨source, parsed.kind, parsed.normalizedUrl⟩)

/-- What the providers promise: a normalised URL is read as itself. -/
def Normalises (R : UrlRuntime) : Prop :=
  ∀ value url, parseSourceUrl R value = .ok (some url) →
    parseSourceUrl R url.normalizedUrl = .ok (some url)

theorem parseSourceUrl_strip (R : UrlRuntime) (value : Text) :
    parseSourceUrl R (strip value) = parseSourceUrl R value := by
  unfold parseSourceUrl
  rw [show strip (strip value) = strip value from stripped_strip value]

variable {R : UrlRuntime} {value : Text} {M : CaseMap} {source identity : Text}

theorem parseSourceUrl_notHttp (h : isHttp R.toCaseMap (strip value) = false) :
    parseSourceUrl R value = .ok none := by
  unfold parseSourceUrl
  simp [h]

/-- The empty text is no URL. -/
theorem ne_nil_of_parseSourceUrl {url : ParsedSourceUrl}
    (h : parseSourceUrl R value = .ok (some url)) : value ≠ [] := by
  rintro rfl
  have hlower : R.lower [] = [] := R.lower_ascii [] (by simp)
  have hhttp : isHttp R.toCaseMap (strip []) = false := by
    unfold isHttp
    rw [show strip [] = [] from rfl, hlower]
    decide
  rw [parseSourceUrl_notHttp hhttp] at h
  cases h

/-- A text whose beginning is not that of the two schemes is no URL. -/
theorem isHttp_false_of_start {a : Text} (t : Text) (hascii : ∀ c ∈ a, c.toNat < 128)
    (hlen : a.length ≤ 4) (hne : a.map Char.toLower ≠ "http".toList.take a.length) :
    isHttp M (a ++ t) = false := by
  obtain ⟨rest, hrest⟩ := M.lower_ascii_start a t hascii
  have hcut : ∀ scheme : Text, "http".toList <+: scheme →
      startswith (a.map Char.toLower ++ rest) scheme = false := by
    intro scheme hscheme
    by_contra htrue
    rw [Bool.not_eq_false, startswith, List.isPrefixOf_iff_prefix] at htrue
    have hstart : "http".toList <+: a.map Char.toLower ++ rest := hscheme.trans htrue
    have htake : "http".toList.take a.length = (a.map Char.toLower ++ rest).take a.length := by
      obtain ⟨more, hmore⟩ := hstart
      have hfour : a.length ≤ "http".toList.length := hlen
      rw [← hmore, List.take_append_of_le_length hfour]
    have hall : (a.map Char.toLower ++ rest).take a.length = a.map Char.toLower := by
      rw [List.take_append_of_le_length (by simp), List.take_of_length_le (by simp)]
    exact hne (htake.trans hall).symm
  unfold isHttp
  rw [hrest, hcut _ (by decide), hcut _ (by decide)]
  rfl

/-- The names of the identity sources are plain words. -/
theorem identitySources_plain : ∀ s ∈ identitySources,
    '/' ∉ s ∧ plainLower s = true ∧ s ≠ "twitter".toList := by
  decide

theorem normalizeSourceName_identitySource (M : CaseMap) {s : Text} (hs : s ∈ identitySources) :
    normalizeSourceName M s = s := by
  obtain ⟨-, hplain, htwitter⟩ := identitySources_plain s hs
  unfold normalizeSourceName
  simp only [strip_plainLower hplain, lower_plainLower hplain M, if_neg htwitter]

/-- What an accepted identity looks like. -/
theorem parseSourceIdentity_ok (h : parseSourceIdentity M value = .ok (source, identity)) :
    source ∈ identitySources ∧ identity ≠ [] ∧ ∀ c ∈ identity, isspace c = false := by
  unfold parseSourceIdentity at h
  split at h
  · cases h
  simp only at h
  split at h
  · cases h
  rename_i hsource
  split at h
  · cases h
  rename_i hne
  split at h
  · cases h
  next hspace =>
    cases h
    exact ⟨not_not.mp hsource, hne, by simpa using hspace⟩

theorem stripped_identity (hsource : source ∈ identitySources)
    (hspace : ∀ c ∈ identity, isspace c = false) : Stripped (source ++ '/' :: identity) := by
  apply stripped_of_noSpace
  intro c hc
  rcases List.mem_append.mp hc with hc | hc
  · exact noSpace_of_plainLower (identitySources_plain source hsource).2.1 c hc
  · rcases List.mem_cons.mp hc with rfl | hc
    · decide
    · exact hspace c hc

/-- An accepted identity is read as itself. -/
theorem parseSourceIdentity_idem (h : parseSourceIdentity M value = .ok (source, identity)) :
    parseSourceIdentity M (source ++ '/' :: identity) = .ok (source, identity) := by
  obtain ⟨hsource, hne, hspace⟩ := parseSourceIdentity_ok h
  have hsplit : splitAt (source ++ '/' :: identity) '/' = (source, identity) :=
    splitAt_append (identitySources_plain source hsource).1 identity
  have hstrip : strip identity = identity := stripped_of_noSpace hspace
  have hany : identity.any isspace = false := by simpa using hspace
  unfold parseSourceIdentity
  simp [hsplit, normalizeSourceName_identitySource M hsource, hsource, hstrip, hne, hany]

end SourceIdentity
