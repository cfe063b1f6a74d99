import Fluo.Http.RequestVersion
import Fluo.Http.RoutePath
import Fluo.Lib.UriComponent

/-!
# Static asset paths

The static middleware turns a request path into the relative paths that it asks
its source for. It asks only for paths inside the mount, and any path inside can
be asked for.
-/

namespace Fluo.Http.StaticAssets

open Fluo.Code Fluo.Js

inductive DotfilesPolicy where
  | allow
  | deny
  | ignore
  deriving DecidableEq

def backslash : UInt16 := unit '\\'

def nul : UInt16 := 0

def isDotfile (segment : JsString) : Bool := segment.head? = some (unit '.')

/-! ## Configuration -/

inductive ConfigurationError where
  | prefixStart
  | indexForm
  | indexName
  deriving DecidableEq

def ConfigurationError.message : ConfigurationError → JsString
  | .prefixStart => text "Static asset prefix must begin with \"/\"."
  | .indexForm => text "Static asset index must be false, a non-empty filename, or a non-empty filename array."
  | .indexName => text "Static asset index names must be plain filenames."

def normalizePrefix (value : Option JsString) : Except ConfigurationError JsString :=
  let value := value.getD [slash]
  if value.head? ≠ some slash then .error .prefixStart
  else
    let normalized := (value.reverse.dropWhile (· = slash)).reverse
    .ok (if normalized = [] then [slash] else normalized)

inductive IndexOption where
  | off
  | name (value : JsString)
  | names (values : List JsString)

/-- What `normalizeIndex` asks of a name. -/
def isPlainFilename (value : JsString) : Bool :=
  !(value = [] || slash ∈ value || backslash ∈ value || value = text "." || value = text "..")

def checkIndexNames (values : List JsString) : Except ConfigurationError (List JsString) :=
  if values.all isPlainFilename then .ok values else .error .indexName

def normalizeIndex : IndexOption → Except ConfigurationError (List JsString)
  | .off => .ok []
  | .name value => checkIndexNames [value]
  | .names [] => .error .indexForm
  | .names values => checkIndexNames values

structure StaticAssetsOptions where
  mount : Option JsString
  dotfiles : Option DotfilesPolicy
  index : IndexOption

structure StaticAssetsConfiguration where
  mount : JsString
  dotfiles : DotfilesPolicy
  index : List JsString

def resolveStaticAssetsConfiguration (options : StaticAssetsOptions) :
    Except ConfigurationError StaticAssetsConfiguration := do
  let index ← normalizeIndex options.index
  let mount ← normalizePrefix options.mount
  return ⟨mount, options.dotfiles.getD .ignore, index⟩

/-! ## Paths -/

/-- What a path or a source comes to. -/
inductive Resolved (α : Type) where
  | found (value : α)
  | denied
  | absent
  deriving DecidableEq

structure StaticAssetPath where
  directory : Bool
  path : JsString
  deriving DecidableEq

def matchesStaticPrefix (requestPath mount : JsString) : Bool :=
  if mount = [slash] then [slash].isPrefixOf requestPath
  else requestPath = mount || (mount ++ [slash]).isPrefixOf requestPath

def isUnsafe (segment : JsString) : Bool :=
  segment = [] || segment = text "." || segment = text ".." || slash ∈ segment || backslash ∈ segment || nul ∈ segment

/-- The loop over the encoded segments; the first one that fails decides. -/
def decodeSegments (dotfiles : DotfilesPolicy) : List JsString → Resolved (List JsString)
  | [] => .found []
  | encodedSegment :: rest =>
    match decodeURIComponent encodedSegment with
    | none => .absent
    | some segment =>
      if isUnsafe segment then .absent
      else if isDotfile segment ∧ dotfiles ≠ .allow then if dotfiles = .deny then .denied else .absent
      else
        match decodeSegments dotfiles rest with
        | .found segments => .found (segment :: segments)
        | .denied => .denied
        | .absent => .absent

def encodedPath (requestPath mount : JsString) : JsString :=
  if mount = [slash] then requestPath else requestPath.drop mount.length

def resolveStaticAssetPath (requestPath mount : JsString) (dotfiles : DotfilesPolicy) : Resolved StaticAssetPath :=
  if matchesStaticPrefix requestPath mount then
    let encodedPath := encodedPath requestPath mount
    match decodeSegments dotfiles (words slash encodedPath) with
    | .found segments => .found ⟨[slash].isSuffixOf encodedPath, join slash segments⟩
    | .denied => .denied
    | .absent => .absent
  else .absent

/-! ## The source -/

variable {α : Type} (source : JsString → Option α)

/-- The loop over the index names, with the paths that the source is asked for. -/
def resolveIndex (dotfiles : DotfilesPolicy) (path : JsString) : List JsString → Resolved α × List JsString
  | [] => (.absent, [])
  | indexName :: rest =>
    if isDotfile indexName ∧ dotfiles ≠ .allow then
      if dotfiles = .deny then (.denied, []) else resolveIndex dotfiles path rest
    else
      let asked := if path = [] then indexName else path ++ slash :: indexName
      match source asked with
      | some asset => (.found asset, [asked])
      | none => ((resolveIndex dotfiles path rest).1, asked :: (resolveIndex dotfiles path rest).2)

def resolveStaticAsset (configuration : StaticAssetsConfiguration) (assetPath : StaticAssetPath) :
    Resolved α × List JsString :=
  if assetPath.directory then resolveIndex source configuration.dotfiles assetPath.path configuration.index
  else if assetPath.path = [] then (.absent, [])
  else
    match source assetPath.path with
    | some asset => (.found asset, [assetPath.path])
    | none => (.absent, [assetPath.path])

/-- The middleware up to the answer of its source: `absent` leaves the request to `next`, `denied` answers 403. -/
def handle (host : CaseMapping) (configuration : StaticAssetsConfiguration) (method requestPath : JsString) :
    Resolved α × List JsString :=
  let assetPath := resolveStaticAssetPath requestPath configuration.mount configuration.dotfiles
  if host.toUpperCase method ≠ text "GET" ∧ host.toUpperCase method ≠ text "HEAD" then (.absent, [])
  else
    match assetPath with
    | .denied => (.denied, [])
    | .absent => (.absent, [])
    | .found assetPath => resolveStaticAsset source configuration assetPath

/-! ## Inside the mount -/

/-- A segment that the source may be asked for. -/
structure Plain (dotfiles : DotfilesPolicy) (segment : JsString) : Prop where
  nonempty : segment ≠ []
  here : segment ≠ text "."
  parent : segment ≠ text ".."
  slashless : slash ∉ segment
  backslashless : backslash ∉ segment
  hidden : dotfiles ≠ .allow → isDotfile segment = false

theorem isUnsafe_false {segment : JsString} : isUnsafe segment = false ↔ segment ≠ [] ∧ segment ≠ text "." ∧
    segment ≠ text ".." ∧ slash ∉ segment ∧ backslash ∉ segment ∧ nul ∉ segment := by
  simp only [isUnsafe, Bool.or_eq_false_iff, decide_eq_false_iff_not, and_assoc]

/-- The segments that are found are decoded one by one, and each is plain. -/
theorem decodeSegments_found {dotfiles : DotfilesPolicy} {encoded segments : List JsString} :
    decodeSegments dotfiles encoded = .found segments ↔
      List.Forall₂ (fun e s => decodeURIComponent e = some s ∧ Plain dotfiles s ∧ nul ∉ s) encoded segments := by
  induction encoded generalizing segments with
  | nil =>
    rw [decodeSegments, List.forall₂_nil_left_iff]
    exact ⟨fun same => by cases same; rfl, fun same => by rw [same]⟩
  | cons e rest ih =>
    rw [List.forall₂_cons_left_iff, decodeSegments]
    constructor
    · intro found
      split at found
      · cases found
      · next segment decoded =>
        split at found
        · cases found
        · next safe =>
          obtain ⟨nonempty, here, parent, slashless, backslashless, clean⟩ :=
            isUnsafe_false.mp (Bool.eq_false_iff.mpr safe)
          split at found
          · split at found <;> cases found
          · next shown =>
            have hidden (other : dotfiles ≠ .allow) : isDotfile segment = false :=
              Bool.eq_false_iff.mpr fun is => shown ⟨is, other⟩
            split at found
            · next others more =>
              cases found
              exact ⟨segment, others, ⟨decoded, ⟨nonempty, here, parent, slashless, backslashless, hidden⟩, clean⟩,
                ih.mp more, rfl⟩
            · cases found
            · cases found
    · rintro ⟨segment, others, ⟨decoded, plain, clean⟩, more, rfl⟩
      have safe : isUnsafe segment = false := isUnsafe_false.mpr
        ⟨plain.nonempty, plain.here, plain.parent, plain.slashless, plain.backslashless, clean⟩
      have shown : ¬ (isDotfile segment = true ∧ dotfiles ≠ .allow) := by
        rintro ⟨is, other⟩
        rw [plain.hidden other] at is
        cases is
      rw [decoded]
      dsimp only
      rw [safe, if_neg Bool.false_ne_true, if_neg shown, ih.mpr more]

theorem decodeSegments_plain {dotfiles : DotfilesPolicy} {encoded segments : List JsString}
    (found : decodeSegments dotfiles encoded = .found segments) :
    ∀ segment ∈ segments, Plain dotfiles segment ∧ nul ∉ segment := by
  have each := decodeSegments_found.mp found
  clear found
  induction each with
  | nil => exact List.forall_mem_nil _
  | cons first _ ih => exact List.forall_mem_cons.mpr ⟨first.2, ih⟩

/-- The index names of a configuration are plain; dotfiles among them are skipped or denied. -/
theorem index_plain {options : StaticAssetsOptions} {configuration : StaticAssetsConfiguration}
    (accepted : resolveStaticAssetsConfiguration options = .ok configuration) {name : JsString}
    (mem : name ∈ configuration.index) : isPlainFilename name = true := by
  obtain ⟨index, checked, accepted⟩ := bind_eq_ok.mp accepted
  obtain ⟨mount, -, accepted⟩ := bind_eq_ok.mp accepted
  cases accepted
  have all {values : List JsString} (checked : checkIndexNames values = .ok index) : isPlainFilename name = true := by
    unfold checkIndexNames at checked
    split at checked
    · next plain =>
      cases checked
      exact List.all_eq_true.mp plain name mem
    · cases checked
  cases option : options.index with
  | off =>
    rw [option] at checked
    cases checked
    cases mem
  | name value =>
    rw [option] at checked
    exact all checked
  | names values =>
    rw [option] at checked
    cases values with
    | nil => cases checked
    | cons value values => exact all checked

theorem resolveIndex_asked {source : JsString → Option α} {dotfiles : DotfilesPolicy} {path p : JsString}
    {names : List JsString} (asked : p ∈ (resolveIndex source dotfiles path names).2) :
    ∃ name ∈ names, (dotfiles ≠ .allow → isDotfile name = false) ∧
      p = if path = [] then name else path ++ slash :: name := by
  induction names with
  | nil => cases asked
  | cons name rest ih =>
    have later (asked : p ∈ (resolveIndex source dotfiles path rest).2) : ∃ other ∈ name :: rest,
        (dotfiles ≠ .allow → isDotfile other = false) ∧ p = if path = [] then other else path ++ slash :: other := by
      obtain ⟨other, mem, shown, same⟩ := ih asked
      exact ⟨other, List.mem_cons_of_mem _ mem, shown, same⟩
    rw [resolveIndex] at asked
    split at asked
    · split at asked
      · cases asked
      · exact later asked
    · next shown =>
      have shown (other : dotfiles ≠ .allow) : isDotfile name = false := Bool.eq_false_iff.mpr fun is => shown ⟨is, other⟩
      dsimp only at asked
      split at asked
      · exact ⟨name, List.mem_cons_self, shown, List.mem_singleton.mp asked⟩
      · rcases List.mem_cons.mp asked with same | more
        · exact ⟨name, List.mem_cons_self, shown, same⟩
        · exact later more

theorem join_snoc (segments : List JsString) (name : JsString) (plain : ∀ segment ∈ segments, segment ≠ []) :
    (if join slash segments = [] then name else join slash segments ++ slash :: name) = join slash (segments ++ [name]) := by
  induction segments with
  | nil => rfl
  | cons first rest ih =>
    have nonempty : first ≠ [] := plain first List.mem_cons_self
    cases rest with
    | nil => simp [join, nonempty]
    | cons second rest =>
      have ih := ih fun segment mem => plain segment (List.mem_cons_of_mem _ mem)
      have inner : join slash (second :: rest) ≠ [] := by
        cases rest with
        | nil => exact plain second (by simp)
        | cons third rest => simp [join]
      have outer : join slash (first :: second :: rest) ≠ [] := by simp [join_cons_cons]
      rw [if_neg inner] at ih
      rw [if_neg outer, join_cons_cons, List.append_assoc, List.cons_append, ih]
      rfl

/-! ## Encoded paths -/

theorem encodeURIComponent_word {segment encoded : JsString} (h : encodeURIComponent segment = some encoded)
    (nonempty : segment ≠ []) : slash ∉ encoded ∧ encoded ≠ [] := by
  refine ⟨not_mem_encodeURIComponent h (by decide) (by decide) (by decide), ?_⟩
  rintro rfl
  have back := decodeURIComponent_encodeURIComponent h
  have empty : decodeURIComponent [] = some [] := rfl
  exact nonempty (Option.some.inj (back.symm.trans empty))

theorem getLast_join {l : List JsString} (some_ : l ≠ []) (words : ∀ x ∈ l, slash ∉ x ∧ x ≠ []) :
    ∃ u, (join slash l).getLast? = some u ∧ u ≠ slash := by
  induction l with
  | nil => exact absurd rfl some_
  | cons x rest ih =>
    obtain ⟨free, nonempty⟩ := words x List.mem_cons_self
    cases rest with
    | nil =>
      refine ⟨x.getLast nonempty, List.getLast?_eq_some_getLast nonempty, ?_⟩
      intro same
      exact free (same ▸ List.getLast_mem nonempty)
    | cons y rest =>
      obtain ⟨u, last, other⟩ := ih (List.cons_ne_nil y rest) fun x mem => words x (List.mem_cons_of_mem _ mem)
      refine ⟨u, ?_, other⟩
      rw [join_cons_cons, List.getLast?_append, List.getLast?_cons, last]
      rfl

/-- The request path for relative segments that have been encoded. -/
def requestPathOf (mount : JsString) (encoded : List JsString) (directory : Bool) : JsString :=
  (if mount = [slash] then [] else mount) ++ (slash :: join slash encoded ++ if directory then [slash] else [])

theorem encodedPath_requestPathOf (mount : JsString) (encoded : List JsString) (directory : Bool) :
    matchesStaticPrefix (requestPathOf mount encoded directory) mount = true ∧
      encodedPath (requestPathOf mount encoded directory) mount =
        slash :: join slash encoded ++ if directory then [slash] else [] := by
  unfold matchesStaticPrefix encodedPath requestPathOf
  by_cases root : mount = [slash]
  · rw [if_pos root, if_pos root, if_pos root, List.nil_append]
    exact ⟨rfl, rfl⟩
  · rw [if_neg root, if_neg root, if_neg root, List.drop_left]
    refine ⟨?_, rfl⟩
    rw [Bool.or_eq_true, List.isPrefixOf_iff_prefix]
    exact .inr ⟨join slash encoded ++ if directory then [slash] else [], by simp⟩

/-- Plain segments that are written behind the mount, each encoded, are found there. A slash behind them makes them a
directory. -/
theorem resolveStaticAssetPath_encoded {dotfiles : DotfilesPolicy} {segments encoded : List JsString}
    (nonempty : segments ≠ []) (plain : ∀ segment ∈ segments, Plain dotfiles segment ∧ nul ∉ segment)
    (encodes : List.Forall₂ (fun segment e => encodeURIComponent segment = some e) segments encoded)
    (mount : JsString) (directory : Bool) :
    resolveStaticAssetPath (requestPathOf mount encoded directory) mount dotfiles =
      .found ⟨directory, join slash segments⟩ := by
  have both : List.Forall₂ (fun e s => decodeURIComponent e = some s ∧ Plain dotfiles s ∧ nul ∉ s)
      encoded segments ∧ ∀ e ∈ encoded, slash ∉ e ∧ e ≠ [] := by
    clear nonempty
    induction encodes with
    | nil => exact ⟨.nil, List.forall_mem_nil _⟩
    | cons first _ ih =>
      obtain ⟨here, rest⟩ := List.forall_mem_cons.mp plain
      obtain ⟨decoded, words⟩ := ih rest
      exact ⟨.cons ⟨decodeURIComponent_encodeURIComponent first, here⟩ decoded,
        List.forall_mem_cons.mpr ⟨encodeURIComponent_word first here.1.nonempty, words⟩⟩
  obtain ⟨decoded, words⟩ := both
  have some_ : encoded ≠ [] := by
    rintro rfl
    cases decoded
    exact nonempty rfl
  obtain ⟨inside, path⟩ := encodedPath_requestPathOf mount encoded directory
  have pieces : Fluo.Code.words slash (slash :: join slash encoded ++ if directory then [slash] else []) = encoded := by
    have front : Fluo.Code.words slash (slash :: join slash encoded) = encoded := by
      rw [← List.nil_append (slash :: _), words_append_cons, words_nil, List.nil_append]
      exact words_join_words words
    cases directory with
    | false => simpa using front
    | true => rw [if_pos rfl, words_append_cons, words_nil, List.append_nil, front]
  have ends : [slash].isSuffixOf (slash :: join slash encoded ++ if directory then [slash] else []) = directory := by
    cases directory with
    | true => exact List.isSuffixOf_iff_suffix.mpr (List.suffix_append _ _)
    | false =>
      obtain ⟨u, last, other⟩ := getLast_join some_ words
      refine Bool.eq_false_iff.mpr fun suffix => other ?_
      obtain ⟨front, same⟩ := List.isSuffixOf_iff_suffix.mp suffix
      have ending := congrArg List.getLast? same
      simp only [List.getLast?_append, List.getLast?_cons, List.getLast?_nil, last, Option.getD_none, Option.getD_some,
        Option.some_or, Bool.false_eq_true, if_false, List.append_nil] at ending
      exact (Option.some.inj ending).symm
  unfold resolveStaticAssetPath
  dsimp only
  rw [if_pos inside, path, pieces, decodeSegments_found.mpr decoded, ends]

/-! ## What is asked for -/

/-- A request path behind the mount is the mount and a rest, which begins with a slash
where the mount does not end in one. -/
theorem behind_mount {requestPath mount : JsString} (inside : matchesStaticPrefix requestPath mount = true) :
    ∃ rest, requestPath = mount ++ rest ∧ (mount = [slash] ∨ rest = [] ∨ [slash] <+: rest) ∧
      Fluo.Code.words slash (encodedPath requestPath mount) = Fluo.Code.words slash rest := by
  unfold matchesStaticPrefix at inside
  unfold encodedPath
  by_cases root : mount = [slash]
  · rw [if_pos root] at inside ⊢
    obtain ⟨rest, rfl⟩ := List.isPrefixOf_iff_prefix.mp inside
    refine ⟨rest, by rw [root], .inl root, ?_⟩
    rw [← List.nil_append ([slash] ++ rest), List.singleton_append, words_append_cons, words_nil, List.nil_append]
  · rw [if_neg root] at inside ⊢
    rcases Bool.or_eq_true_iff.mp inside with same | below
    · have same : requestPath = mount := of_decide_eq_true same
      refine ⟨[], by rw [same, List.append_nil], .inr (.inl rfl), ?_⟩
      rw [same, List.drop_length]
    · obtain ⟨rest, rfl⟩ := List.isPrefixOf_iff_prefix.mp below
      refine ⟨slash :: rest, by simp, .inr (.inr (List.prefix_append [slash] rest)), ?_⟩
      rw [List.append_assoc, List.drop_left]
      rfl

/-- Whatever the request, the source is asked only for paths below the mount: the segments that the request path has
behind the mount, decoded, perhaps with an index name, none of them empty, a dot segment, a dotfile that is not
allowed, or with a separator of any platform inside. Only an index name can have a null character. -/
theorem static_paths_contained {options : StaticAssetsOptions} {configuration : StaticAssetsConfiguration}
    (accepted : resolveStaticAssetsConfiguration options = .ok configuration) (host : CaseMapping)
    (source : JsString → Option α) (method requestPath p : JsString)
    (asked : p ∈ (handle source host configuration method requestPath).2) :
    ∃ rest, requestPath = configuration.mount ++ rest ∧
    (configuration.mount = [slash] ∨ rest = [] ∨ [slash] <+: rest) ∧
    ∃ segments index, p.splitOn slash = segments ++ index ∧
      List.Forall₂ (fun encoded segment => decodeURIComponent encoded = some segment) (words slash rest) segments ∧
      (∀ segment ∈ segments, nul ∉ segment) ∧ (∀ name ∈ index, name ∈ configuration.index) ∧ index.length ≤ 1 ∧
      ∀ segment ∈ segments ++ index, Plain configuration.dotfiles segment := by
  unfold handle at asked
  dsimp only at asked
  split at asked
  · cases asked
  split at asked
  · cases asked
  · cases asked
  next assetPath resolved =>
  unfold resolveStaticAssetPath at resolved
  split at resolved
  case isFalse => cases resolved
  next inside =>
  obtain ⟨rest, whole, border, pieces⟩ := behind_mount inside
  refine ⟨rest, whole, border, ?_⟩
  rw [← pieces]
  dsimp only at resolved
  split at resolved
  case h_2 | h_3 => cases resolved
  next segments found =>
  cases resolved
  have each := decodeSegments_found.mp found
  have plain := decodeSegments_plain found
  have decoded := each.imp fun _ _ both => both.1
  have split_ (index : List JsString) (some : segments ++ index ≠ [])
      (named : ∀ name ∈ index, Plain configuration.dotfiles name) :
      (join slash (segments ++ index)).splitOn slash = segments ++ index := by
    refine splitOn_join some fun segment mem => ?_
    rcases List.mem_append.mp mem with mem | mem
    · exact (plain segment mem).1.slashless
    · exact (named segment mem).slashless
  unfold resolveStaticAsset at asked
  split at asked
  · obtain ⟨name, listed, shown, rfl⟩ := resolveIndex_asked asked
    have good := index_plain accepted listed
    simp only [isPlainFilename, Bool.not_eq_true', Bool.or_eq_false_iff, decide_eq_false_iff_not] at good
    have named : Plain configuration.dotfiles name :=
      ⟨good.1.1.1.1, good.1.2, good.2, good.1.1.1.2, good.1.1.2, shown⟩
    rw [join_snoc segments name fun segment mem => (plain segment mem).1.nonempty]
    refine ⟨segments, [name], split_ [name] (by simp) (by simpa using named), decoded, fun segment mem => (plain segment mem).2,
      by simpa using listed, by simp, fun segment mem => ?_⟩
    rcases List.mem_append.mp mem with mem | mem
    · exact (plain segment mem).1
    · rw [List.mem_singleton.mp mem]
      exact named
  · split at asked
    · cases asked
    · next some =>
      have same : p = join slash segments := by
        split at asked <;> exact List.mem_singleton.mp asked
      have nonempty : segments ≠ [] := by
        rintro rfl
        exact some rfl
      have whole := split_ [] (by simpa using nonempty) (List.forall_mem_nil _)
      rw [List.append_nil] at whole
      refine ⟨segments, [], by rw [same, whole, List.append_nil], decoded, fun segment mem => (plain segment mem).2,
        List.forall_mem_nil _, by simp, fun segment mem => (plain segment (by simpa using mem)).1⟩

/-- A directory is answered by its index. -/
theorem static_paths_contained_directory :
    ∃ rest, text "/assets/docs/" = text "/assets" ++ rest ∧
    (text "/assets" = [slash] ∨ rest = [] ∨ [slash] <+: rest) ∧
    ∃ segments index, (text "docs/index.html").splitOn slash = segments ++ index ∧
      List.Forall₂ (fun encoded segment => decodeURIComponent encoded = some segment) (words slash rest) segments ∧
      (∀ segment ∈ segments, nul ∉ segment) ∧ (∀ name ∈ index, name ∈ [text "index.html"]) ∧ index.length ≤ 1 ∧
      ∀ segment ∈ segments ++ index, Plain .deny segment := by
  have plain : ∀ segment ∈ [text "docs"], Plain .deny segment ∧ nul ∉ segment := by
    intro segment mem
    rw [List.mem_singleton.mp mem]
    exact ⟨⟨by decide, by decide, by decide, by decide, by decide, by decide⟩, by decide⟩
  have found : resolveStaticAssetPath (text "/assets/docs/") (text "/assets") .deny = .found ⟨true, text "docs"⟩ :=
    resolveStaticAssetPath_encoded (List.cons_ne_nil _ _) plain
      (.cons (by decide : encodeURIComponent (text "docs") = some (text "docs")) .nil) (text "/assets") true
  have answered : handle (fun _ => (none : Option Unit)) .same ⟨text "/assets", .deny, [text "index.html"]⟩ (text "GET")
      (text "/assets/docs/") = (.absent, [text "docs/index.html"]) := by
    unfold handle
    dsimp only
    rw [if_neg (by decide), found]
    rfl
  have accepted : resolveStaticAssetsConfiguration ⟨some (text "/assets/"), some .deny, .name (text "index.html")⟩ =
      .ok ⟨text "/assets", .deny, [text "index.html"]⟩ := rfl
  exact static_paths_contained accepted .same (fun _ => (none : Option Unit)) (text "GET") (text "/assets/docs/")
    (text "docs/index.html") (by rw [answered]; exact List.mem_singleton_self _)

/-- Every relative path of plain segments is asked for when its segments are written behind the mount, each
encoded. A slash behind them makes it a directory. -/
theorem static_paths_reached {host : CaseMapping} {configuration : StaticAssetsConfiguration} {method : JsString}
    {segments encoded : List JsString} (get : host.toUpperCase method = text "GET") (nonempty : segments ≠ [])
    (plain : ∀ segment ∈ segments, Plain configuration.dotfiles segment ∧ nul ∉ segment)
    (encodes : List.Forall₂ (fun segment e => encodeURIComponent segment = some e) segments encoded)
    (source : JsString → Option α) :
    (∀ directory, resolveStaticAssetPath (requestPathOf configuration.mount encoded directory) configuration.mount
      configuration.dotfiles = .found ⟨directory, join slash segments⟩) ∧
    (handle source host configuration method (requestPathOf configuration.mount encoded false)).2 =
      [join slash segments] := by
  have resolved (directory : Bool) := resolveStaticAssetPath_encoded nonempty plain encodes configuration.mount directory
  refine ⟨resolved, ?_⟩
  have full : join slash segments ≠ [] := by
    obtain ⟨u, last, -⟩ := getLast_join nonempty fun s mem => ⟨(plain s mem).1.slashless, (plain s mem).1.nonempty⟩
    intro empty
    rw [empty] at last
    cases last
  unfold handle
  dsimp only
  rw [if_neg (by simp [get]), resolved false]
  dsimp only
  unfold resolveStaticAsset
  rw [if_neg Bool.false_ne_true, if_neg full]
  dsimp only
  split <;> rfl

/-- An asset with a space in its name, below `/assets`. -/
theorem static_paths_reached_spaced :
    (handle (fun _ => (none : Option Unit)) .same ⟨text "/assets", .ignore, []⟩ (text "GET") (text "/assets/img/a%20b")).2 =
      [text "img/a b"] := by
  have plain : ∀ segment ∈ [text "img", text "a b"], Plain .ignore segment ∧ nul ∉ segment := by
    intro segment mem
    rcases List.mem_pair.mp mem with rfl | rfl <;>
      exact ⟨⟨by decide, by decide, by decide, by decide, by decide, by decide⟩, by decide⟩
  have encodes : List.Forall₂ (fun segment e => encodeURIComponent segment = some e) [text "img", text "a b"]
      [text "img", text "a%20b"] := .cons (by decide) (.cons (by decide) .nil)
  have get : CaseMapping.same.toUpperCase (text "GET") = text "GET" := rfl
  exact (@static_paths_reached Unit .same ⟨text "/assets", .ignore, []⟩ (text "GET") _ _ get (List.cons_ne_nil _ _) plain
    encodes fun _ => none).2

end Fluo.Http.StaticAssets
