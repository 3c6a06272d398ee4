import Tierkreis.Lib.FileUrl
import Tierkreis.State.Tables

/-!
# The text of an asset kind

The kind of an asset is stored as a URL. The root of a file storage is written into
it as it is and read back as the path of the URL, so it comes back only if it is the
path of its own URL.
-/

namespace Tierkreis

open Lib Lib.FileUrl Sql

namespace Sql

/-- The crate parses the two kinds of URLs by the standard. -/
structure Crates.FollowsUrl (K : Crates) (U : Rules) : Prop where
  memory : ∃ path, K.parseUrl "memory://process" = .ok ("memory", path)
  file : ∀ root : String, match parsePath U root.toList with
    | some path => K.parseUrl s!"file://{root}" = .ok ("file", String.ofList path)
    | none => ∃ e, K.parseUrl s!"file://{root}" = .error e

end Sql

namespace AssetKind

/-- Roots are compared as paths. -/
def Same : AssetKind → AssetKind → Prop
  | .memory, .memory => True
  | .file root, .file root' => SamePath root.toList root'.toList
  | _, _ => False

/-- The root is its own path in a URL: absolute, without characters that a URL has encoded or
read as something else, and without segments that a URL resolves. -/
def Plain (U : Rules) : AssetKind → Prop
  | .memory => True
  | .file root => FileUrl.Plain U root.toList

variable {K : Crates} {U : Rules}

theorem kindFromText_kindToText_iff (hK : K.FollowsUrl U) (kind : AssetKind) :
    (∃ kind', kindFromText K (kindToText kind) = .ok kind' ∧ kind'.Same kind) ↔
      kind.Plain U := by
  cases kind with
  | memory =>
    obtain ⟨path, hp⟩ := hK.memory
    refine ⟨fun _ => trivial, fun _ => ⟨.memory, ?_, trivial⟩⟩
    simp [kindFromText, kindToText, hp]
  | file root =>
    show _ ↔ FileUrl.Plain U root.toList
    rw [← parsePath_iff]
    have hf := hK.file root
    have htext : kindToText (.file root) = s!"file://{root}" := rfl
    rw [htext]
    cases hp : parsePath U root.toList with
    | none =>
      rw [hp] at hf
      obtain ⟨e, he⟩ := hf
      simp [kindFromText, he]
    | some path =>
      rw [hp] at hf
      have hread : kindFromText K s!"file://{root}" = .ok (.file (String.ofList path)) := by
        simp only [kindFromText, hf]
        rfl
      rw [hread]
      constructor
      · rintro ⟨kind', hk, hs⟩
        cases hk
        refine ⟨path, rfl, ?_⟩
        simpa [Same] using hs
      · rintro ⟨out, ho, hs⟩
        cases ho
        refine ⟨_, rfl, ?_⟩
        simpa [Same] using hs

end AssetKind

/-- The kind of a spec is read back from its text, and the spec from its row, exactly when the
root of the kind is plain. -/
theorem asset_kind_text_iff {K : Crates} {U : Rules} (hK : K.FollowsUrl U) (spec : AssetSpec) :
    ((∃ kind, kindFromText K (kindToText spec.kind) = .ok kind ∧ kind.Same spec.kind) ↔
      spec.kind.Plain U) ∧
    ((∃ spec', (AssetRow.ofSpec spec).toSpec K = .ok spec' ∧ spec'.kind.Same spec.kind ∧
        spec'.storageName = spec.storageName ∧ spec'.assetKey = spec.assetKey) ↔
      spec.kind.Plain U) := by
  have hkind := AssetKind.kindFromText_kindToText_iff hK spec.kind
  refine ⟨hkind, ?_⟩
  rw [← hkind]
  unfold AssetRow.toSpec AssetRow.ofSpec
  cases kindFromText K (kindToText spec.kind) with
  | error f => simp [Except.map]
  | ok kind => simp [Except.map]

/-! ## The standard -/

/-- The characters that the standard has encoded in a path. -/
def standardEncodes (c : Char) : Bool :=
  c.toNat ≤ 32 || 126 < c.toNat || [34, 35, 60, 62, 63, 94, 96, 123, 125].contains c.toNat

theorem standardEncodes_control (c : Char) (h : c.toNat ≤ 32) : standardEncodes c = true := by
  simp [standardEncodes, h]

theorem standardEncodes_query : standardEncodes '?' = true := by decide

theorem standardEncodes_hash : standardEncodes '#' = true := by decide

theorem standardEncodes_plain (c : Char)
    (h : c = '/' ∨ c = '.' ∨ c = ':' ∨ c = '%' ∨ c.isAlphanum = true) :
    standardEncodes c = false := by
  rcases h with rfl | rfl | rfl | rfl | h
  · decide
  · decide
  · decide
  · decide
  · -- digits and letters lie between the other characters
    have hrange : 48 ≤ c.toNat ∧ c.toNat ≤ 57 ∨ 65 ≤ c.toNat ∧ c.toNat ≤ 90 ∨
        97 ≤ c.toNat ∧ c.toNat ≤ 122 := by
      delta Char.isAlphanum Char.isAlpha Char.isUpper Char.isLower Char.isDigit at h
      simp only [Bool.or_eq_true, Bool.and_eq_true, decide_eq_true_eq, ge_iff_le,
        UInt32.le_iff_toNat_le] at h
      change (65 ≤ c.toNat ∧ c.toNat ≤ 90 ∨ 97 ≤ c.toNat ∧ c.toNat ≤ 122) ∨
        48 ≤ c.toNat ∧ c.toNat ≤ 57 at h
      omega
    simp only [standardEncodes, List.contains_eq_mem, List.mem_cons, List.not_mem_nil, or_false,
      Bool.or_eq_false_iff, decide_eq_false_iff_not]
    omega

/-- Every host is accepted. -/
def standardRules : Rules where
  encodes := standardEncodes
  host _ := true
  encodes_control := standardEncodes_control
  encodes_query := standardEncodes_query
  encodes_hash := standardEncodes_hash
  plain := standardEncodes_plain

/-- Zeros in the unspecified bits, and the URLs of the standard. -/
def Sql.Crates.standard : Crates where
  intoVec := Crates.zeroFill.intoVec
  take_fromSlice := Crates.zeroFill.take_fromSlice
  parseUrl s :=
    if s = "memory://process" then .ok ("memory", "")
    else match parsePath standardRules (s.toList.drop 7) with
      | some path => .ok ("file", String.ofList path)
      | none => .error "invalid international domain name"

theorem standard_followsUrl : Crates.standard.FollowsUrl standardRules where
  memory := ⟨"", rfl⟩
  file root := by
    have hne : s!"file://{root}" ≠ "memory://process" := by
      intro h
      have := congrArg (fun s : String => s.toList.head?) h
      simp [toString] at this
    have hdrop : (s!"file://{root}").toList.drop 7 = root.toList := by simp [toString]
    have hparse : Crates.standard.parseUrl s!"file://{root}" =
        match parsePath standardRules root.toList with
        | some path => .ok ("file", String.ofList path)
        | none => .error "invalid international domain name" := by
      simp only [Crates.standard, if_neg hne, hdrop]
    rw [hparse]
    cases parsePath standardRules root.toList with
    | none => exact ⟨_, rfl⟩
    | some path => rfl

/-- A storage in a plain directory. -/
theorem asset_kind_text_assets :
    ((∃ kind, kindFromText Crates.standard (kindToText (.file "/tmp/assets")) = .ok kind ∧
        kind.Same (.file "/tmp/assets")) ↔ (AssetKind.file "/tmp/assets").Plain standardRules) ∧
    ((∃ spec', (AssetRow.ofSpec ⟨.file "/tmp/assets", "files", 7⟩).toSpec Crates.standard =
        .ok spec' ∧ spec'.kind.Same (.file "/tmp/assets") ∧ spec'.storageName = "files" ∧
        spec'.assetKey = 7) ↔ (AssetKind.file "/tmp/assets").Plain standardRules) :=
  asset_kind_text_iff standard_followsUrl ⟨.file "/tmp/assets", "files", 7⟩

/-- A root with a blank, a relative root and a root with a question mark come back as others. -/
theorem asset_kind_text_lost :
    (¬∃ kind, kindFromText Crates.standard (kindToText (.file "/my assets")) = .ok kind ∧
        kind.Same (.file "/my assets")) ∧
      (¬∃ kind, kindFromText Crates.standard (kindToText (.file "assets/store")) = .ok kind ∧
        kind.Same (.file "assets/store")) ∧
      ¬∃ kind, kindFromText Crates.standard (kindToText (.file "/assets?")) = .ok kind ∧
        kind.Same (.file "/assets?") := by
  have hlost : ∀ root : String, ¬FileUrl.Plain standardRules root.toList →
      ¬∃ kind, kindFromText Crates.standard (kindToText (.file root)) = .ok kind ∧
        kind.Same (.file root) := by
    intro root hroot h
    exact hroot ((AssetKind.kindFromText_kindToText_iff standard_followsUrl _).1 h)
  refine ⟨hlost _ fun hp => ?_, hlost _ fun hp => ?_, hlost _ fun hp => ?_⟩
  · exact absurd (hp.kept ' ' (by decide)).1 (by decide)
  · exact absurd hp.absolute (by decide)
  · exact absurd (hp.kept '?' (by decide)).1 (by decide)

end Tierkreis
