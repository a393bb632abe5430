import Relay.Bucket

/-!
# Storage keys as paths

A storage client may read a key as a path, and a path may be normalized.

* `splitOn_storageKey`: the segments of a key;
* `safeKey_iff`: the last segment is the name of a file, unless the filename keeps nothing but one
  or two dots.
-/

namespace Relay

/-- The last component of a filename, without the space around it. -/
def lastName (filename : String) : List Char := Text.strip Text.isSpace (Text.pathName filename.toList)

/-- A character that `_safe_filename` keeps. -/
def keepsCharacter (env : Env) (c : Char) : Bool := env.alphanumeric c || c = '.' || c = '-' || c = '_'

/-- The directory of an asset. -/
def assetPath (tenant brand asset : Uuid) : List (List Char) :=
  ["relay".toList, "workspaces".toList, tenant.text.toList, "brands".toList, brand.text.toList,
    "assets".toList, asset.text.toList]

/-- A key is a path of eight segments, of which the last is the name of a file in the directory of the
asset; it cannot be normalized out of that directory, and no other asset has it. -/
structure SafeKey (env : Env) (tenant brand asset : Uuid) (filename : String) : Prop where
  segments : ∃ last, Text.splitOn (· = '/') (storageKey env tenant brand asset filename).toList =
      assetPath tenant brand asset ++ [last] ∧ 1 ≤ last.length ∧ last.length ≤ 120 ∧
    (∀ c ∈ last, keepsCharacter env c = true) ∧ last ≠ ['.'] ∧ last ≠ ['.', '.']
  nonempty : ∀ w ∈ Text.splitOn (· = '/') (storageKey env tenant brand asset filename).toList, w ≠ []
  inside : assetPath tenant brand asset <+:
    Text.resolveDots (Text.splitOn (· = '/') (storageKey env tenant brand asset filename).toList)
  alone : ∀ tenant' brand' asset' filename', storageKey env tenant' brand' asset' filename' =
    storageKey env tenant brand asset filename → asset' = asset

/-- The filename keeps a character that is no dot, or its dots are not one or two. -/
def Nameable (env : Env) (filename : String) : Prop :=
  (∃ c ∈ lastName filename, keepsCharacter env c = true ∧ c ≠ '.') ∨
    ((lastName filename).count '.' ≠ 1 ∧ (lastName filename).count '.' ≠ 2)

section Segments

variable {env : Env} {tenant brand asset : Uuid} {filename : String}

/-- A UUID is a plain segment. -/
theorem isPlain_text (u : Uuid) : Text.IsPlain u.text.toList := by
  have hlength := length_uuid_text u
  refine ⟨fun h => ?_, fun h => ?_, fun h => ?_⟩ <;> rw [h] at hlength <;> simp at hlength

theorem not_slash_text (u : Uuid) : ∀ c ∈ u.text.toList, decide (c = '/') = false := by
  intro c hc
  rw [decide_eq_false_iff_not]
  rw [Uuid.text, String.toList_ofList] at hc
  rcases Uuid.isDigit_or_hyphen hc with h | rfl
  · exact h.ne_slash
  · decide

theorem isPlain_of_assetPath {w : List Char} (h : w ∈ assetPath tenant brand asset) : Text.IsPlain w := by
  simp only [assetPath, List.mem_cons, List.not_mem_nil, or_false] at h
  rcases h with h | h | h | h | h | h | h <;> rw [h]
  · exact ⟨by decide, by decide, by decide⟩
  · exact ⟨by decide, by decide, by decide⟩
  · exact isPlain_text tenant
  · exact ⟨by decide, by decide, by decide⟩
  · exact isPlain_text brand
  · exact ⟨by decide, by decide, by decide⟩
  · exact isPlain_text asset

/-- The name that is stored: the characters that are kept, or `image`. -/
theorem safeFilename_toList (env : Env) (filename : String) :
    (safeFilename env filename).toList =
      if ((lastName filename).filter (keepsCharacter env)).take 120 = [] then "image".toList
      else ((lastName filename).filter (keepsCharacter env)).take 120 := by
  have hkeeps : (fun c => env.alphanumeric c || decide (c = '.') || decide (c = '-') || decide (c = '_')) =
      keepsCharacter env := rfl
  unfold safeFilename
  rw [hkeeps]
  simp only
  by_cases hname : lastName filename = []
  · unfold lastName at hname
    rw [if_pos hname]
    simp [lastName, hname]
  · unfold lastName at hname
    rw [if_neg hname]
    unfold lastName
    split
    · rfl
    · rw [String.toList_ofList]

theorem not_slash_of_all {l : List Char} (h : (l.all fun c => c != '/') = true) :
    ∀ c ∈ l, decide (c = '/') = false := by
  intro c hc
  have hne := List.all_eq_true.1 h c hc
  simpa using hne

/-- The key is a path below the directory of the asset. -/
theorem splitOn_storageKey (env : Env) (tenant brand asset : Uuid) (filename : String)
    (hslash : ∀ c ∈ (safeFilename env filename).toList, decide (c = '/') = false) :
    Text.splitOn (· = '/') (storageKey env tenant brand asset filename).toList =
      assetPath tenant brand asset ++ [(safeFilename env filename).toList] := by
  have hpath : (storageKey env tenant brand asset filename).toList =
      "relay".toList ++ '/' :: ("workspaces".toList ++ '/' :: (tenant.text.toList ++ '/' ::
        ("brands".toList ++ '/' :: (brand.text.toList ++ '/' :: ("assets".toList ++ '/' ::
          (asset.text.toList ++ '/' :: (safeFilename env filename).toList)))))) := by
    have hworkspaces : "relay/workspaces/".toList =
        "relay".toList ++ '/' :: ("workspaces".toList ++ ['/']) := by
      decide
    have hbrands : "/brands/".toList = '/' :: ("brands".toList ++ ['/']) := by decide
    have hassets : "/assets/".toList = '/' :: ("assets".toList ++ ['/']) := by decide
    have hfile : "/".toList = ['/'] := by decide
    rw [storageKey_toList, hworkspaces, hbrands, hassets, hfile]
    simp only [List.append_assoc, List.cons_append, List.nil_append]
  have hsegment {a : List Char} (ha : ∀ c ∈ a, decide (c = '/') = false) (b : List Char) :
      Text.splitOn (· = '/') (a ++ '/' :: b) = a :: Text.splitOn (· = '/') b :=
    Text.splitOn_segment (p := fun c : Char => decide (c = '/')) (by decide) ha b
  rw [hpath, hsegment (not_slash_of_all (by decide)), hsegment (not_slash_of_all (by decide)),
    hsegment (not_slash_text tenant), hsegment (not_slash_of_all (by decide)),
    hsegment (not_slash_text brand), hsegment (not_slash_of_all (by decide)),
    hsegment (not_slash_text asset), Text.splitOn_of_forall hslash]
  rfl

/-- Nothing that is kept of the last component is a slash. -/
theorem not_slash_lastName (filename : String) : ∀ c ∈ lastName filename, decide (c = '/') = false := by
  intro c hc
  have hname : c ∈ Text.pathName filename.toList := by
    unfold lastName Text.strip at hc
    exact List.dropWhile_subset _ (List.mem_reverse.1 (List.dropWhile_subset _ (List.mem_reverse.1 hc)))
  unfold Text.pathName at hname
  cases hlast : ((Text.splitOn (· = '/') filename.toList).filter fun w => w ≠ [] && w ≠ ['.']).getLast? with
  | none =>
    rw [hlast] at hname
    cases hname
  | some w =>
    rw [hlast, Option.getD_some] at hname
    exact Text.not_mem_of_mem_splitOn (List.mem_filter.1 (List.mem_of_getLast? hlast)).1 c hname

theorem not_slash_safeFilename (env : Env) (filename : String) :
    ∀ c ∈ (safeFilename env filename).toList, decide (c = '/') = false := by
  intro c hc
  rw [safeFilename_toList] at hc
  split at hc
  · exact not_slash_of_all (by decide) c hc
  · exact not_slash_lastName filename c (List.mem_filter.1 (List.mem_of_mem_take hc)).1

/-- The name has between 1 and 120 characters, all of which are kept ones. -/
theorem safeFilename_chars (letters : ∀ c, c.isAlpha = true → env.alphanumeric c = true)
    (filename : String) :
    1 ≤ (safeFilename env filename).toList.length ∧ (safeFilename env filename).toList.length ≤ 120 ∧
      ∀ c ∈ (safeFilename env filename).toList, keepsCharacter env c = true := by
  rw [safeFilename_toList]
  split
  · refine ⟨by decide, by decide, fun c hc => ?_⟩
    have halpha : ("image".toList.all Char.isAlpha) = true := by decide
    simp [keepsCharacter, letters c (List.all_eq_true.1 halpha c hc)]
  · rename_i hne
    refine ⟨List.length_pos_iff.2 hne, by rw [List.length_take]; omega, fun c hc => ?_⟩
    exact (List.mem_filter.1 (List.mem_of_mem_take hc)).2

/-- The characters that are kept are so many dots and nothing else. -/
theorem filter_eq_dots (n : ℕ) : (lastName filename).filter (keepsCharacter env) = List.replicate n '.' ↔
    (∀ c ∈ lastName filename, keepsCharacter env c = true → c = '.') ∧ (lastName filename).count '.' = n := by
  have hdot : keepsCharacter env '.' = true := by simp [keepsCharacter]
  have hcount : ((lastName filename).filter (keepsCharacter env)).count '.' = (lastName filename).count '.' :=
    List.count_filter hdot
  rw [List.eq_replicate_iff]
  constructor
  · rintro ⟨hlength, hdots⟩
    refine ⟨fun c hc hkeeps => hdots c (List.mem_filter.2 ⟨hc, hkeeps⟩), ?_⟩
    rw [← hcount, ← hlength]
    exact List.count_eq_length.2 fun c hc => (hdots c hc).symm
  · rintro ⟨hdots, hn⟩
    have hall : ∀ c ∈ (lastName filename).filter (keepsCharacter env), c = '.' := fun c hc =>
      hdots c (List.mem_filter.1 hc).1 (List.mem_filter.1 hc).2
    refine ⟨?_, hall⟩
    rw [← hn, ← hcount]
    exact (List.count_eq_length.2 fun c hc => (hall c hc).symm).symm

/-- A filename becomes one or two dots when it keeps nothing else. -/
theorem safeFilename_eq_dots (env : Env) (filename : String) {n : ℕ} (hn : 0 < n) (hlt : n < 120) :
    (safeFilename env filename).toList = List.replicate n '.' ↔
      (∀ c ∈ lastName filename, keepsCharacter env c = true → c = '.') ∧
        (lastName filename).count '.' = n := by
  rw [← filter_eq_dots, safeFilename_toList]
  constructor
  · split
    · intro h
      have hhead := congrArg List.head? h
      rw [List.head?_replicate, if_neg (by omega)] at hhead
      exact absurd hhead (by decide)
    · intro h
      -- the text is shorter than the limit, so nothing was cut off
      have hlength := congrArg List.length h
      rw [List.length_take, List.length_replicate] at hlength
      rwa [List.take_of_length_le (by omega)] at h
  · intro h
    have htake : (List.replicate n '.').take 120 = List.replicate n '.' :=
      List.take_of_length_le (by rw [List.length_replicate]; omega)
    rw [h, htake, if_neg]
    rw [List.replicate_eq_nil_iff]
    omega

theorem nameable_iff : Nameable env filename ↔ (safeFilename env filename).toList ≠ ['.'] ∧
    (safeFilename env filename).toList ≠ ['.', '.'] := by
  have hone := safeFilename_eq_dots env filename (show 0 < 1 by decide) (by decide)
  have htwo := safeFilename_eq_dots env filename (show 0 < 2 by decide) (by decide)
  rw [show List.replicate 1 '.' = ['.'] from rfl] at hone
  rw [show List.replicate 2 '.' = ['.', '.'] from rfl] at htwo
  rw [Ne, Ne, hone, htwo, Nameable]
  constructor
  · rintro (⟨c, hc, hkeeps, hne⟩ | ⟨h1, h2⟩)
    · exact ⟨fun h => hne (h.1 c hc hkeeps), fun h => hne (h.1 c hc hkeeps)⟩
    · exact ⟨fun h => h1 h.2, fun h => h2 h.2⟩
  · rintro ⟨h1, h2⟩
    by_cases hdots : ∀ c ∈ lastName filename, keepsCharacter env c = true → c = '.'
    · exact .inr ⟨fun h => h1 ⟨hdots, h⟩, fun h => h2 ⟨hdots, h⟩⟩
    · push Not at hdots
      exact .inl hdots

end Segments

/-- **A storage key is a safe path exactly when its filename does not come down to one or two dots.** -/
theorem safeKey_iff {env : Env} (letters : ∀ c, c.isAlpha = true → env.alphanumeric c = true)
    (tenant brand asset : Uuid) (filename : String) :
    SafeKey env tenant brand asset filename ↔ Nameable env filename := by
  have hpath := splitOn_storageKey env tenant brand asset filename (not_slash_safeFilename env filename)
  obtain ⟨hpos, hmax, hkeeps⟩ := safeFilename_chars letters filename
  rw [nameable_iff]
  constructor
  · intro h
    obtain ⟨last, hlast, -, -, -, hdot, hdots⟩ := h.segments
    rw [hpath] at hlast
    obtain rfl : (safeFilename env filename).toList = last := by simpa using hlast
    exact ⟨hdot, hdots⟩
  · rintro ⟨hdot, hdots⟩
    have hne : (safeFilename env filename).toList ≠ [] := List.length_pos_iff.1 hpos
    have hplain : ∀ w ∈ Text.splitOn (· = '/') (storageKey env tenant brand asset filename).toList,
        Text.IsPlain w := by
      rw [hpath]
      intro w hw
      rcases List.mem_append.1 hw with hw | hw
      · exact isPlain_of_assetPath hw
      · rw [List.mem_singleton.1 hw]
        exact ⟨hne, hdot, hdots⟩
    refine ⟨⟨_, hpath, hpos, hmax, hkeeps, hdot, hdots⟩, fun w hw => (hplain w hw).1, ?_,
      fun _ _ _ _ h => storageKey_injective h⟩
    rw [Text.resolveDots_of_plain hplain, hpath]
    exact List.prefix_append _ _

/-- An ordinary filename. -/
theorem safeKey_iff_sample : SafeKey Sample.env Sample.workspace Sample.brand Sample.asset "../summer.jpg" :=
  (safeKey_iff (fun c h => by simp [Sample.env, Char.isAlphanum, h]) _ _ _ _).2
    (.inl ⟨'s', by decide +kernel, by decide +kernel, by decide⟩)

/-- The filename `..` is accepted, and its key leads out of the directory of the asset. -/
theorem not_safeKey : ¬ ∀ (env : Env) (tenant brand asset : Uuid) (d : MediaUploadIntentData)
    (upload : MediaUpload), (∀ c, c.isAlpha = true → env.alphanumeric c = true) →
    d.validate = .ok upload → SafeKey env tenant brand asset upload.filename := by
  intro h
  have hsafe := h Sample.env Sample.workspace Sample.brand Sample.asset
    ⟨Sample.brand, "..", "image/png", 1, none⟩ ⟨"..", "image/png", 1, ""⟩
    (fun c hc => by simp [Sample.env, Char.isAlphanum, hc]) (by decide +kernel)
  have hnot : ¬ (assetPath Sample.workspace Sample.brand Sample.asset <+:
      Text.resolveDots (Text.splitOn (· = '/') (storageKey Sample.env Sample.workspace Sample.brand
        Sample.asset "..").toList)) := by
    decide +kernel
  exact hnot hsafe.inside

end Relay
