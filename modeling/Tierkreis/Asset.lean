import Mathlib.Algebra.Order.Ring.Int
import Tierkreis.Lib.HashMap

/-!
# Assets

An asset is a sequence of bytes kept in a named storage under a fresh key. The
orchestrator reads assets to take branches and to unfold lists, and writes
assets for constants and folded lists.

`serde_json` is not part of the repository: `Serde` stands for the two functions
the code calls, and nothing here depends on what they do.
-/

namespace Tierkreis

open Lib

/-- Why a function of the model gives no value: an `Err`, with the outermost context
first, or a panic. `outOfFuel` is not an outcome of the code: it marks a run of the
model that was cut off. -/
inductive Failure where
  | err (report : List String)
  | panic (text : String)
  | outOfFuel
  deriving DecidableEq, Repr

namespace Failure

def miette (text : String) : Failure := .err [text]

def wrapErr (text : String) : Failure → Failure
  | err report => .err (text :: report)
  | f => f

end Failure

abbrev Result (α : Type) := Except Failure α

theorem Result.bind_eq_ok {α β : Type} {x : Result α} {f : α → Result β} {b : β} :
    (x >>= f) = .ok b ↔ ∃ a, x = .ok a ∧ f a = .ok b := by
  cases x with
  | error e => simp [bind, Except.bind]
  | ok a => simp [bind, Except.bind]

def okOr {α : Type} (o : Option α) (text : String) : Result α :=
  match o with
  | some a => .ok a
  | none => .error (.miette text)

theorem okOr_eq_ok {α : Type} {o : Option α} {text : String} {a : α} :
    okOr o text = .ok a ↔ o = some a := by
  cases o <;> simp [okOr]

theorem okOr_eq_error {α : Type} {o : Option α} {text : String} {e : Failure}
    (h : okOr o text = .error e) : e = .miette text := by
  cases o with
  | none => exact (Except.error.inj h).symm
  | some a => cases h

theorem mapM_eq_ok {α β : Type} {f : α → Result β} {l : List α} :
    ∀ {ys : List β}, l.mapM f = .ok ys → List.Forall₂ (fun a b => f a = .ok b) l ys := by
  induction l with
  | nil =>
    intro ys h
    cases h
    exact .nil
  | cons a l ih =>
    intro ys h
    rw [List.mapM_cons] at h
    cases ha : f a with
    | error e => simp [ha, bind, Except.bind] at h
    | ok b =>
      cases hl : l.mapM f with
      | error e => simp [ha, hl, bind, Except.bind] at h
      | ok bs =>
        simp only [ha, hl, bind, Except.bind, pure, Except.pure, Except.ok.injEq] at h
        subst h
        exact .cons ha (ih hl)

theorem exists_of_mapM_eq_ok {α β : Type} {f : α → Result β} {l : List α} {ys : List β}
    (h : l.mapM f = .ok ys) : ∀ a ∈ l, ∃ b ∈ ys, f a = .ok b := by
  replace h := mapM_eq_ok h
  induction h with
  | nil => simp
  | cons ha _ ih =>
    intro a hm
    rcases List.mem_cons.1 hm with rfl | hm
    · exact ⟨_, .head _, ha⟩
    · obtain ⟨b, hb, hab⟩ := ih a hm
      exact ⟨b, .tail _ hb, hab⟩

theorem mapM_of_forall₂ {α β : Type} {f : α → Result β} {l : List α} {ys : List β}
    (h : List.Forall₂ (fun a b => f a = .ok b) l ys) : l.mapM f = .ok ys := by
  induction h with
  | nil => rfl
  | cons ha _ ih => simp [List.mapM_cons, ha, ih, bind, Except.bind, pure, Except.pure]

abbrev Bytes := List UInt8

/-- `b"true"`. -/
def btrue : Bytes := [116, 114, 117, 101]

inductive Json where
  | null
  | bool (b : Bool)
  | num (literal : String)
  | str (s : String)
  | arr (items : List Json)
  | obj (entries : List (String × Json))

/-- `serde_json::Value` with numbers that are computed with. Integers are those of an `i64` or a
`u64`, floats those of `F`, and the keys of an object are in order. -/
inductive JsonValue (F : Type) where
  | null
  | bool (b : Bool)
  | int (n : Int)
  | float (x : F)
  | str (s : String)
  | arr (items : List (JsonValue F))
  | obj (entries : List (String × JsonValue F))

/-- The `serde_json` functions on values. -/
structure Serde where
  toVec : Json → Bytes
  fromSlice : Bytes → Except String Json

namespace Serde

/-- `from_slice` at the type of lists of values. -/
def listFromSlice (S : Serde) (bytes : Bytes) : Except String (List Json) :=
  match S.fromSlice bytes with
  | .ok (.arr items) => .ok items
  | .ok _ => .error "invalid type: expected a sequence"
  | .error e => .error e

theorem listFromSlice_eq_ok {S : Serde} {bytes : Bytes} {items : List Json} :
    S.listFromSlice bytes = .ok items ↔ S.fromSlice bytes = .ok (.arr items) := by
  unfold listFromSlice
  split <;> simp_all

end Serde

/-- The root of a `file` kind is kept as the text of its path. -/
inductive AssetKind where
  | memory
  | file (root : String)
  deriving DecidableEq, Repr

abbrev AssetKey := Nat

structure AssetSpec where
  kind : AssetKind
  storageName : String
  assetKey : AssetKey
  deriving DecidableEq, Repr

abbrev Specs := HashMap String AssetSpec

/-- The first asset of the storage in memory. -/
def memorySpec : AssetSpec := { kind := .memory, storageName := "memory", assetKey := 0 }

/-- One registered storage: the kind of its assets and their bytes. -/
structure AssetStorage where
  kind : AssetKind
  store : HashMap AssetKey Bytes

/-- The storages by name, and the next key `AssetKey::new` gives. -/
structure Assets where
  registry : HashMap String AssetStorage
  fresh : Nat

namespace AssetStorage

def load (s : AssetStorage) (key : AssetKey) : Result Bytes :=
  match s.kind with
  | .memory => okOr (s.store.get? key) "Asset not found in InMemoryStorage"
  | .file root => okOr (s.store.get? key) s!"Cannot find file at location: {root}/{key}"

def save (s : AssetStorage) (key : AssetKey) (value : Bytes) : AssetStorage :=
  { s with store := s.store.insert key value }

theorem load_eq_ok {s : AssetStorage} {key : AssetKey} {b : Bytes} :
    s.load key = .ok b ↔ s.store.get? key = some b := by
  unfold load
  cases s.kind <;> exact okOr_eq_ok

end AssetStorage

namespace Assets

def storage (A : Assets) (name : String) : Result AssetStorage :=
  okOr (A.registry.get? name)
    s!"Cannot find AssetStorage in AssetStorageRegistry with name: {name}"

def loadAssetFromSpec (A : Assets) (spec : AssetSpec) : Result Bytes := do
  let storage ← A.storage spec.storageName
  storage.load spec.assetKey

def loadAsset (A : Assets) (assets : Specs) (name : String) : Result Bytes := do
  let spec ← okOr (assets.get? name) s!"Failed to find asset with name: `{name}`"
  A.loadAssetFromSpec spec

def saveAsset (A : Assets) (storageName : String) (value : Bytes) : Result (AssetSpec × Assets) := do
  let storage ← A.storage storageName
  pure ({ kind := storage.kind, storageName := storageName, assetKey := A.fresh },
    { registry := A.registry.insert storageName (storage.save A.fresh value),
      fresh := A.fresh + 1 })

/-- Save each value in turn. -/
def saveAll (A : Assets) (storageName : String) :
    List Bytes → Result (List AssetSpec × Assets)
  | [] => pure ([], A)
  | value :: values => do
    let (spec, A) ← A.saveAsset storageName value
    let (specs, A) ← A.saveAll storageName values
    pure (spec :: specs, A)

/-- Load a json list and save its items in the storage it came from. -/
def unfoldAsset (S : Serde) (A : Assets) (assets : Specs) (name : String) :
    Result (List AssetSpec × Assets) := do
  let spec ← okOr (assets.get? name) s!"Failed to find asset with name: `{name}`"
  let asset ← A.loadAssetFromSpec spec
  match S.listFromSlice asset with
  | .error e => .error (.miette s!"Could not unfold asset: {e}")
  | .ok values => A.saveAll spec.storageName (values.map S.toVec)

def loadValue (S : Serde) (A : Assets) (spec : AssetSpec) : Result Json := do
  let asset ← A.loadAssetFromSpec spec
  match S.fromSlice asset with
  | .error e => .error (.miette e)
  | .ok value => pure value

/-- Load json values and save the list of them. -/
def foldAssets (S : Serde) (A : Assets) (storageName : String) (specs : List AssetSpec) :
    Result (AssetSpec × Assets) := do
  let values ← specs.mapM (loadValue S A)
  A.saveAsset storageName (S.toVec (.arr values))

/-! ## Assets only grow

A save never touches an earlier key, so what a spec loads never changes. -/

/-- Every key in use is below the next fresh one. -/
def Fresh (A : Assets) : Prop :=
  ∀ name storage (key : Nat), A.registry.get? name = some storage → A.fresh ≤ key →
    storage.store.get? key = none

/-- Whatever `A` loads, `B` loads too. -/
def Grows (A B : Assets) : Prop :=
  ∀ spec bytes, A.loadAssetFromSpec spec = .ok bytes → B.loadAssetFromSpec spec = .ok bytes

theorem Grows.refl (A : Assets) : A.Grows A := fun _ _ h => h

theorem Grows.trans {A B C : Assets} (h : A.Grows B) (h' : B.Grows C) : A.Grows C :=
  fun spec bytes hl => h' spec bytes (h spec bytes hl)

theorem storage_eq_ok {A : Assets} {name : String} {s : AssetStorage} :
    A.storage name = .ok s ↔ A.registry.get? name = some s := okOr_eq_ok

theorem loadAssetFromSpec_eq_ok {A : Assets} {spec : AssetSpec} {b : Bytes} :
    A.loadAssetFromSpec spec = .ok b ↔
      ∃ s, A.registry.get? spec.storageName = some s ∧ s.store.get? spec.assetKey = some b := by
  unfold loadAssetFromSpec
  cases h : A.registry.get? spec.storageName with
  | none => simp [storage, h, okOr, bind, Except.bind]
  | some s => simp [storage, h, okOr, bind, Except.bind, AssetStorage.load_eq_ok]

/-- What a save does: it returns a spec that loads the value, and disturbs no other. -/
theorem saveAsset_spec {A B : Assets} {name : String} {value : Bytes} {spec : AssetSpec}
    (hf : A.Fresh) (h : A.saveAsset name value = .ok (spec, B)) :
    B.Fresh ∧ A.Grows B ∧ B.loadAssetFromSpec spec = .ok value := by
  unfold saveAsset at h
  cases hs : A.registry.get? name with
  | none => simp [storage, hs, okOr, bind, Except.bind] at h
  | some s =>
    simp only [storage, hs, okOr, bind, Except.bind, pure, Except.pure, Except.ok.injEq,
      Prod.mk.injEq] at h
    obtain ⟨rfl, rfl⟩ := h
    refine ⟨?_, ?_, ?_⟩
    · intro n t key hn hk
      simp only [HashMap.get?_insert] at hn
      split at hn
      · cases hn
        have hne : key ≠ A.fresh := by
          simp only at hk; omega
        rw [AssetStorage.save, HashMap.get?_insert_ne _ _ hne]
        exact hf name s key hs (by simp only at hk; omega)
      · exact hf n t key hn (by simp only at hk; omega)
    · intro spec bytes hl
      rw [loadAssetFromSpec_eq_ok] at hl ⊢
      obtain ⟨t, ht, hb⟩ := hl
      by_cases hn : spec.storageName = name
      · rw [hn, hs] at ht
        cases ht
        refine ⟨s.save A.fresh value, by simp [hn], ?_⟩
        have hne : spec.assetKey ≠ A.fresh := by
          intro e
          rw [e, hf name s _ hs (Nat.le_refl _)] at hb
          cases hb
        rw [AssetStorage.save, HashMap.get?_insert_ne _ _ hne, hb]
      · exact ⟨t, by rw [HashMap.get?_insert_ne _ _ hn, ht], hb⟩
    · rw [loadAssetFromSpec_eq_ok]
      exact ⟨s.save A.fresh value, by simp, by simp [AssetStorage.save]⟩

/-- The specs of `saveAll` load the values, in order. -/
theorem saveAll_spec {name : String} {values : List Bytes} :
    ∀ {A B : Assets} {specs : List AssetSpec}, A.Fresh →
      A.saveAll name values = .ok (specs, B) →
      B.Fresh ∧ A.Grows B ∧
        List.Forall₂ (fun spec value => B.loadAssetFromSpec spec = .ok value) specs values := by
  induction values with
  | nil =>
    intro A B specs hf h
    cases h
    exact ⟨hf, .refl A, .nil⟩
  | cons value values ih =>
    intro A B specs hf h
    unfold saveAll at h
    cases h₁ : A.saveAsset name value with
    | error e => simp [h₁, bind, Except.bind] at h
    | ok r =>
      obtain ⟨spec, A₁⟩ := r
      cases h₂ : A₁.saveAll name values with
      | error e => simp [h₁, h₂, bind, Except.bind] at h
      | ok r =>
        obtain ⟨rest, A₂⟩ := r
        simp only [h₁, h₂, bind, Except.bind, pure, Except.pure, Except.ok.injEq,
          Prod.mk.injEq] at h
        obtain ⟨rfl, rfl⟩ := h
        obtain ⟨hf₁, hg₁, hl⟩ := saveAsset_spec hf h₁
        obtain ⟨hf₂, hg₂, hls⟩ := ih hf₁ h₂
        exact ⟨hf₂, hg₁.trans hg₂, .cons (hg₂ _ _ hl) hls⟩

/-! ## Saving in a registered storage -/

theorem registered_of_load {A : Assets} {spec : AssetSpec} {bytes : Bytes}
    (h : A.loadAssetFromSpec spec = .ok bytes) : A.registry.contains spec.storageName = true := by
  obtain ⟨storage, hs, -⟩ := loadAssetFromSpec_eq_ok.1 h
  rw [HashMap.contains, hs]
  rfl

theorem saveAsset_ok {A : Assets} {name : String} (h : A.registry.contains name = true)
    (value : Bytes) :
    ∃ spec B, A.saveAsset name value = .ok (spec, B) ∧ B.registry.contains name = true := by
  obtain ⟨storage, hs⟩ := Option.isSome_iff_exists.1 h
  refine ⟨{ kind := storage.kind, storageName := name, assetKey := A.fresh },
    { registry := A.registry.insert name (storage.save A.fresh value), fresh := A.fresh + 1 },
    ?_, ?_⟩
  · rw [saveAsset, storage_eq_ok.2 hs]
    rfl
  · rw [HashMap.contains, HashMap.get?_insert_self]
    rfl

theorem saveAll_ok {name : String} (values : List Bytes) :
    ∀ {A : Assets}, A.registry.contains name = true →
      ∃ specs B, A.saveAll name values = .ok (specs, B) := by
  induction values with
  | nil => exact fun {A} _ => ⟨[], A, rfl⟩
  | cons value values ih =>
    intro A h
    obtain ⟨spec, B, hB, hreg⟩ := saveAsset_ok h value
    obtain ⟨specs, D, hD⟩ := ih hreg
    refine ⟨spec :: specs, D, ?_⟩
    rw [saveAll, hB]
    simp only [bind, Except.bind, hD, pure, Except.pure]

/-! ## Keys that were given before -/

/-- `B` comes from `A` by saves: what has an earlier key loads as before, or fails as before. -/
structure Extends (A B : Assets) : Prop where
  fresh_le : A.fresh ≤ B.fresh
  load_eq : ∀ spec : AssetSpec, spec.assetKey < A.fresh →
    B.loadAssetFromSpec spec = A.loadAssetFromSpec spec

theorem Extends.refl (A : Assets) : A.Extends A := ⟨Nat.le_refl _, fun _ _ => rfl⟩

theorem Extends.trans {A B C : Assets} (h : A.Extends B) (h' : B.Extends C) : A.Extends C where
  fresh_le := Nat.le_trans h.fresh_le h'.fresh_le
  load_eq spec hk := (h'.load_eq spec (Nat.lt_of_lt_of_le hk h.fresh_le)).trans (h.load_eq spec hk)

theorem saveAsset_extends {A B : Assets} {name : String} {value : Bytes} {spec : AssetSpec}
    (h : A.saveAsset name value = .ok (spec, B)) : A.Extends B := by
  unfold saveAsset at h
  cases hs : A.registry.get? name with
  | none => simp [storage, hs, okOr, bind, Except.bind] at h
  | some s =>
    simp only [storage, hs, okOr, bind, Except.bind, pure, Except.pure, Except.ok.injEq,
      Prod.mk.injEq] at h
    obtain ⟨rfl, rfl⟩ := h
    refine ⟨Nat.le_succ _, fun spec hk => ?_⟩
    have hload : (s.save A.fresh value).load spec.assetKey = s.load spec.assetKey := by
      unfold AssetStorage.load AssetStorage.save
      rw [HashMap.get?_insert_ne _ _ (Nat.ne_of_lt hk)]
    unfold loadAssetFromSpec storage
    rw [HashMap.get?_insert]
    split
    · rename_i hn
      rw [hn, hs]
      exact hload
    · rfl

theorem saveAll_extends {name : String} {values : List Bytes} :
    ∀ {A B : Assets} {specs : List AssetSpec}, A.saveAll name values = .ok (specs, B) →
      A.Extends B := by
  induction values with
  | nil =>
    intro A B specs h
    cases h
    exact .refl A
  | cons value values ih =>
    intro A B specs h
    rw [saveAll, Result.bind_eq_ok] at h
    obtain ⟨⟨spec, A₁⟩, h₁, h⟩ := h
    obtain ⟨⟨rest, A₂⟩, h₂, h⟩ := Result.bind_eq_ok.1 h
    cases h
    exact (saveAsset_extends h₁).trans (ih h₂)

/-! ## Unfolding -/

/-- The items of the list that is the asset of a name, if it is one. -/
def listAt (S : Serde) (A : Assets) (assets : Specs) (name : String) : Option (List Json) := do
  let spec ← assets.get? name
  let asset ← (A.loadAssetFromSpec spec).toOption
  (S.listFromSlice asset).toOption

theorem listAt_eq_some {S : Serde} {A : Assets} {assets : Specs} {name : String}
    {items : List Json} :
    A.listAt S assets name = some items ↔ ∃ spec bytes, assets.get? name = some spec ∧
      A.loadAssetFromSpec spec = .ok bytes ∧ S.listFromSlice bytes = .ok items := by
  simp only [listAt, bind, Option.bind_eq_some_iff]
  constructor
  · rintro ⟨spec, hs, bytes, hb, hi⟩
    refine ⟨spec, bytes, hs, ?_, ?_⟩
    · cases hl : A.loadAssetFromSpec spec with
      | error e => simp [hl, Except.toOption] at hb
      | ok b => simpa [hl, Except.toOption] using hb
    · cases hl : S.listFromSlice bytes with
      | error e => simp [hl, Except.toOption] at hi
      | ok b => simpa [hl, Except.toOption] using hi
  · rintro ⟨spec, bytes, hs, hb, hi⟩
    refine ⟨spec, hs, bytes, ?_, ?_⟩
    · rw [hb]
      rfl
    · rw [hi]
      rfl

theorem unfoldAsset_of_list {S : Serde} {A : Assets} {assets : Specs} {name : String}
    {spec : AssetSpec} {bytes : Bytes} {vs : List Json} (hf : A.Fresh)
    (hspec : assets.get? name = some spec) (hload : A.loadAssetFromSpec spec = .ok bytes)
    (hread : S.fromSlice bytes = .ok (.arr vs)) :
    ∃ specs B, A.unfoldAsset S assets name = .ok (specs, B) ∧
      List.Forall₂ (fun spec v => B.loadAssetFromSpec spec = .ok (S.toVec v)) specs vs := by
  obtain ⟨specs, B, hsave⟩ := saveAll_ok (vs.map S.toVec) (registered_of_load hload)
  refine ⟨specs, B, ?_, ?_⟩
  · rw [unfoldAsset, okOr_eq_ok.2 hspec]
    simp only [bind, Except.bind, hload, Serde.listFromSlice_eq_ok.2 hread, hsave]
  · have hsaved := (saveAll_spec hf hsave).2.2
    rwa [List.forall₂_map_right_iff] at hsaved

theorem unfoldAsset_spec {S : Serde} {A B : Assets} {assets : Specs} {name : String}
    {specs : List AssetSpec} (hf : A.Fresh) (h : A.unfoldAsset S assets name = .ok (specs, B)) :
    B.Fresh ∧ A.Grows B ∧ A.Extends B ∧ ∃ items, A.listAt S assets name = some items ∧
      List.Forall₂ (fun spec v => B.loadAssetFromSpec spec = .ok (S.toVec v)) specs items := by
  rw [unfoldAsset, Result.bind_eq_ok] at h
  obtain ⟨spec, hs, h⟩ := h
  obtain ⟨asset, ha, h⟩ := Result.bind_eq_ok.1 h
  cases hl : S.listFromSlice asset with
  | error e =>
    rw [hl] at h
    cases h
  | ok items =>
    rw [hl] at h
    obtain ⟨hB, hg, hload⟩ := saveAll_spec hf h
    rw [List.forall₂_map_right_iff] at hload
    exact ⟨hB, hg, saveAll_extends h, items,
      listAt_eq_some.2 ⟨spec, asset, okOr_eq_ok.1 hs, ha, hl⟩, hload⟩

theorem loadAssetFromSpec_eq_error {A : Assets} {spec : AssetSpec} {e : Failure}
    (h : A.loadAssetFromSpec spec = .error e) : ∃ text, e = .miette text := by
  unfold loadAssetFromSpec at h
  cases hs : A.storage spec.storageName with
  | error e' =>
    rw [hs] at h
    cases h
    exact ⟨_, okOr_eq_error hs⟩
  | ok s =>
    rw [hs] at h
    change s.load spec.assetKey = .error e at h
    unfold AssetStorage.load at h
    split at h <;> exact ⟨_, okOr_eq_error h⟩

/-- What cannot be unfolded is reported. -/
theorem unfoldAsset_of_listAt_none {S : Serde} {A : Assets} {assets : Specs} {name : String}
    (h : A.listAt S assets name = none) :
    ∃ text, A.unfoldAsset S assets name = .error (.miette text) := by
  unfold unfoldAsset
  cases hs : assets.get? name with
  | none => exact ⟨_, rfl⟩
  | some spec =>
    cases hb : A.loadAssetFromSpec spec with
    | error e =>
      obtain ⟨text, rfl⟩ := loadAssetFromSpec_eq_error hb
      refine ⟨text, ?_⟩
      simp only [okOr, bind, Except.bind, hb]
    | ok bytes =>
      cases hl : S.listFromSlice bytes with
      | error e =>
        refine ⟨s!"Could not unfold asset: {e}", ?_⟩
        simp only [okOr, bind, Except.bind, hb, hl]
      | ok items =>
        rw [listAt_eq_some.2 ⟨spec, bytes, hs, hb, hl⟩] at h
        cases h

/-- A list can be unfolded. -/
theorem unfoldAsset_of_listAt {S : Serde} {A : Assets} {assets : Specs} {name : String}
    {items : List Json} (h : A.listAt S assets name = some items) (hf : A.Fresh) :
    ∃ specs B, A.unfoldAsset S assets name = .ok (specs, B) ∧ B.Fresh ∧ A.Grows B ∧
      A.Extends B ∧
      List.Forall₂ (fun spec v => B.loadAssetFromSpec spec = .ok (S.toVec v)) specs items := by
  obtain ⟨spec, bytes, hs, hb, hl⟩ := listAt_eq_some.1 h
  obtain ⟨specs, B, hu, -⟩ := unfoldAsset_of_list hf hs hb (Serde.listFromSlice_eq_ok.1 hl)
  obtain ⟨hB, hg, he, items', hi, hload⟩ := unfoldAsset_spec hf hu
  rw [h] at hi
  cases hi
  exact ⟨specs, B, hu, hB, hg, he, hload⟩

/-- Saves leave a list whose key was given before as it was. -/
theorem Extends.listAt {A B : Assets} (h : A.Extends B) {S : Serde} {assets : Specs}
    (hk : ∀ name spec, assets.get? name = some spec → spec.assetKey < A.fresh) (name : String) :
    B.listAt S assets name = A.listAt S assets name := by
  unfold Assets.listAt
  cases hs : assets.get? name with
  | none => rfl
  | some spec =>
    simp only [bind, Option.bind_some]
    rw [h.load_eq spec (hk name spec hs)]

end Assets

end Tierkreis
