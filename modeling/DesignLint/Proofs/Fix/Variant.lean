import DesignLint.Fix.Variant
import DesignLint.Proofs.Sort
import Mathlib.Data.List.Sort
import Mathlib.Data.String.Basic

/-!
# A variant is never guessed

What counts of a list of class names is which names are on it (`IsClass`), and of a list of mappings
which values they give for these names (`IsVariant`). `variants` is the list of these values in
order (`mem_variants`, `variants_increasing`), and the only one (`variants_congr`). By its length it
is decided what becomes of the class names (`variantOf_cases`). So a variant is found only if all
mappings that apply agree on it (`Resolved`), and neither order nor repetitions matter
(`resolveVariant_resolved`).
-/

namespace DesignLint

/-- A class name fits an entry of a mapping if it is the entry or continues it after a hyphen. -/
def Fits (entry : String) (name : Text) : Prop :=
  name = entry.toList ∨ ∃ rest, name = entry.toList ++ '-' :: rest

/-- The class names of a text are its words without a colon. -/
def IsClass (value name : Text) : Prop := name ∈ Text.words value ∧ ':' ∉ name

/-- A mapping applies if each class that it asks for is there, and none that it excludes. -/
structure VariantMapping.Applies (value : Text) (m : VariantMapping) : Prop where
  every : ∀ entry ∈ m.every, ∃ name, IsClass value name ∧ Fits entry name
  none : ∀ entry ∈ m.none, ¬ ∃ name, IsClass value name ∧ Fits entry name

/-- The values of the mappings that apply. -/
def IsVariant (value : Text) (ms : List VariantMapping) (v : String) : Prop :=
  ∃ m ∈ ms, m.Applies value ∧ m.value = v

section

variable {value value' name us vs : Text} {entry : String} {ms ms' : List VariantMapping}
  {m m' : VariantMapping} {v : String}

/-! ### Class names and mappings -/

theorem fitsEntry_iff : fitsEntry entry name ↔ Fits entry name := by
  rw [fitsEntry, Bool.or_eq_true, beq_iff_eq, List.isPrefixOf_iff_prefix, Fits]
  refine or_congr_right ⟨?_, ?_⟩
  · rintro ⟨rest, rfl⟩
    exact ⟨rest, by simp⟩
  · rintro ⟨rest, rfl⟩
    exact ⟨rest, by simp⟩

theorem mem_classNames : name ∈ classNames value ↔ IsClass value name := by
  simp [classNames, IsClass]

theorem classNames_ne_nil : classNames value ≠ [] ↔ ∃ name, IsClass value name := by
  simp only [← mem_classNames]
  exact ⟨List.exists_mem_of_ne_nil _, fun ⟨_, hname⟩ => List.ne_nil_of_mem hname⟩

theorem isClass_append {c : Char} (hc : isBlank c) :
    IsClass (us ++ c :: vs) name ↔ IsClass us name ∨ IsClass vs name := by
  rw [IsClass, Text.words, List.splitOnP_append_cons us vs hc, List.filter_append, List.mem_append,
    or_and_right]
  rfl

theorem not_isClass_colon (hwords : Text.words us = [us]) (hcolon : ':' ∈ us) :
    ¬ IsClass us name := by
  rintro ⟨hname, hnot⟩
  rw [hwords, List.mem_singleton] at hname
  exact hnot (hname ▸ hcolon)

theorem anyFits_iff : anyFits (classNames value) entry ↔
    ∃ name, IsClass value name ∧ Fits entry name := by
  simp only [anyFits, List.any_eq_true, mem_classNames, fitsEntry_iff]

theorem applies_iff : m.applies (classNames value) ↔ m.Applies value := by
  simp only [VariantMapping.applies, Bool.and_eq_true, List.all_eq_true, Bool.not_eq_true',
    List.any_eq_false, anyFits_iff]
  exact ⟨fun h => ⟨h.1, h.2⟩, fun h => ⟨h.every, h.none⟩⟩

/-! ### The values that mappings give -/

theorem mem_variants : v ∈ variants (classNames value) ms ↔ IsVariant value ms v := by
  simp only [variants, mem_eraseReps, List.mem_mergeSort, List.mem_map, List.mem_filter,
    applies_iff, IsVariant, and_assoc]

theorem variants_increasing (names : List Text) (ms : List VariantMapping) :
    (variants names ms).Pairwise (· < ·) := by
  have hsorted := pairwise_mergeSort_of (r := fun a b : String => a ≤ b) (fun _ _ _ => le_trans)
    (fun _ _ => le_total _ _) ((ms.filter (·.applies names)).map (·.value))
  exact (pairwise_eraseReps (fun _ _ => le_antisymm) hsorted).imp fun h => lt_of_le_of_ne h.1 h.2

theorem variants_congr (h : ∀ v, IsVariant value ms v ↔ IsVariant value' ms' v) :
    variants (classNames value) ms = variants (classNames value') ms' :=
  (variants_increasing _ _).eq_of_mem_iff (variants_increasing _ _) fun v => by
    rw [mem_variants, mem_variants, h]

/-! ### Order and repetitions -/

/-- Mappings with the same value and the same entries. -/
structure VariantMapping.Same (m m' : VariantMapping) : Prop where
  value : m.value = m'.value
  every : ∀ entry, entry ∈ m.every ↔ entry ∈ m'.every
  none : ∀ entry, entry ∈ m.none ↔ entry ∈ m'.none

/-- Lists of the same mappings, in any order and with any repetitions. -/
def SameMappings (ms ms' : List VariantMapping) : Prop :=
  (∀ m ∈ ms, ∃ m' ∈ ms', m.Same m') ∧ ∀ m' ∈ ms', ∃ m ∈ ms, m.Same m'

/-- Constants with the same class names, in any order and with any repetitions; other attributes are
the same. -/
def SameClasses : Option AttributeValue → Option AttributeValue → Prop
  | some (.literal source), some (.literal source') =>
    ∀ name, IsClass source.toList name ↔ IsClass source'.toList name
  | value, value' => value = value'

theorem VariantMapping.Applies.congr (h : m.Applies value) (hm : m.Same m')
    (hc : ∀ name, IsClass value name ↔ IsClass value' name) : m'.Applies value' where
  every entry he := by
    obtain ⟨name, hname, hfits⟩ := h.every entry ((hm.every entry).mpr he)
    exact ⟨name, (hc name).mp hname, hfits⟩
  none entry he := by
    rintro ⟨name, hname, hfits⟩
    exact h.none entry ((hm.none entry).mpr he) ⟨name, (hc name).mpr hname, hfits⟩

theorem VariantMapping.Same.symm (h : m.Same m') : m'.Same m where
  value := h.value.symm
  every entry := (h.every entry).symm
  none entry := (h.none entry).symm

theorem isVariant_congr (hms : SameMappings ms ms')
    (hc : ∀ name, IsClass value name ↔ IsClass value' name) :
    IsVariant value ms v ↔ IsVariant value' ms' v := by
  constructor
  · rintro ⟨m, hm, happlies, rfl⟩
    obtain ⟨m', hm', hsame⟩ := hms.1 m hm
    exact ⟨m', hm', happlies.congr hsame hc, hsame.value.symm⟩
  · rintro ⟨m', hm', happlies, rfl⟩
    obtain ⟨m, hm, hsame⟩ := hms.2 m' hm'
    exact ⟨m, hm, happlies.congr hsame.symm fun name => (hc name).symm, hsame.value⟩

end

/-! ### Variants -/

section

variable {value : Text} {ms : List VariantMapping}

/-- What can become of class names: there are none that count, or the mappings give no value, or
one, or several. -/
theorem variantOf_cases (value : Text) (ms : List VariantMapping) :
    ((¬ ∃ name, IsClass value name) ∧
      ∃ classes, variantOf value ms = .error (.noVariantMapping classes)) ∨
    (∃ name, IsClass value name) ∧
      ((variants (classNames value) ms = [] ∧
          ∃ classes, variantOf value ms = .error (.noVariantMapping classes)) ∨
        (∃ v, variants (classNames value) ms = [v] ∧ variantOf value ms = .ok v) ∨
        (2 ≤ (variants (classNames value) ms).length ∧
          variantOf value ms = .error (.ambiguousVariant (variants (classNames value) ms)))) := by
  rw [← classNames_ne_nil, variantOf]
  simp only [List.isEmpty_iff]
  by_cases hempty : classNames value = []
  · exact Or.inl ⟨not_not.mpr hempty, _, by rw [if_pos hempty]⟩
  · rw [if_neg hempty]
    refine Or.inr ⟨hempty, ?_⟩
    rcases variants (classNames value) ms with _ | ⟨one, _ | ⟨two, more⟩⟩
    · exact Or.inl ⟨rfl, _, rfl⟩
    · exact Or.inr (Or.inl ⟨one, rfl, rfl⟩)
    · exact Or.inr (Or.inr ⟨by simp, rfl⟩)

theorem variantOf_eq_ok {v : String} : variantOf value ms = .ok v ↔
    (∃ name, IsClass value name) ∧ variants (classNames value) ms = [v] := by
  rcases variantOf_cases value ms with
    ⟨hnone, _, h⟩ | ⟨hname, ⟨hvs, _, h⟩ | ⟨w, hvs, h⟩ | ⟨htwo, h⟩⟩
  · simp [h, hnone]
  · simp [h, hvs]
  · simp [h, hvs, hname]
  · refine iff_of_false (by simp [h]) fun hone => ?_
    rw [hone.2] at htwo
    simp at htwo

theorem variantOf_eq_ambiguous {vs : List String} :
    variantOf value ms = .error (.ambiguousVariant vs) ↔
      (∃ name, IsClass value name) ∧ variants (classNames value) ms = vs ∧ 2 ≤ vs.length := by
  rcases variantOf_cases value ms with
    ⟨hnone, _, h⟩ | ⟨hname, ⟨hvs, _, h⟩ | ⟨w, hvs, h⟩ | ⟨htwo, h⟩⟩
  · simp [h, hnone]
  · refine iff_of_false (by simp [h]) fun hmany => ?_
    rw [← hmany.2.1, hvs] at hmany
    simp at hmany
  · refine iff_of_false (by simp [h]) fun hmany => ?_
    rw [← hmany.2.1, hvs] at hmany
    simp at hmany
  · simp only [h, Except.error.injEq, FixFailure.ambiguousVariant.injEq]
    exact ⟨fun heq => ⟨hname, heq, heq ▸ htwo⟩, fun hmany => hmany.2.1⟩

theorem variantOf_eq_unmapped :
    (∃ classes, variantOf value ms = .error (.noVariantMapping classes)) ↔
      (∀ name, ¬ IsClass value name) ∨ variants (classNames value) ms = [] := by
  rw [← not_exists]
  rcases variantOf_cases value ms with
    ⟨hnone, _, h⟩ | ⟨hname, ⟨hvs, _, h⟩ | ⟨w, hvs, h⟩ | ⟨htwo, h⟩⟩
  · exact iff_of_true ⟨_, h⟩ (Or.inl hnone)
  · exact iff_of_true ⟨_, h⟩ (Or.inr hvs)
  · simp [h, hvs, hname]
  · refine iff_of_false (by simp [h]) ?_
    rintro (hnone | hvs)
    · exact hnone hname
    · rw [hvs] at htwo
      simp at htwo

theorem variantOf_ne_unsupported : variantOf value ms ≠ .error .unsupported := by
  rcases variantOf_cases value ms with ⟨-, _, h⟩ | ⟨-, ⟨-, _, h⟩ | ⟨w, -, h⟩ | ⟨-, h⟩⟩ <;> simp [h]

theorem two_le_length_variants : 2 ≤ (variants (classNames value) ms).length ↔
    ∃ v w, IsVariant value ms v ∧ IsVariant value ms w ∧ v ≠ w := by
  simp only [← mem_variants]
  have hlt := variants_increasing (classNames value) ms
  rcases hvs : variants (classNames value) ms with _ | ⟨one, _ | ⟨two, more⟩⟩
  · simp
  · simp only [List.length_singleton, List.mem_singleton]
    refine ⟨fun h => by omega, ?_⟩
    rintro ⟨v, w, rfl, rfl, hne⟩
    exact absurd rfl hne
  · rw [hvs] at hlt
    have hne : one ≠ two := ne_of_lt ((List.pairwise_cons.mp hlt).1 two (by simp))
    exact ⟨fun _ => ⟨one, two, by simp, by simp, hne⟩, fun _ => by simp⟩

/-- One value is found if all mappings that apply agree on it. -/
theorem variants_eq_singleton {v : String} : variants (classNames value) ms = [v] ↔
    ∀ w, IsVariant value ms w ↔ w = v := by
  simp only [← mem_variants]
  refine ⟨fun h w => by rw [h, List.mem_singleton], fun h => ?_⟩
  exact (variants_increasing _ _).eq_of_mem_iff (List.pairwise_singleton _ v) fun w => by
    rw [h, List.mem_singleton]

theorem variants_eq_nil : variants (classNames value) ms = [] ↔ ∀ v, ¬ IsVariant value ms v := by
  simp only [← mem_variants]
  exact List.eq_nil_iff_forall_not_mem

end

/-! ### Resolution -/

/-- What becomes of class names that are given by an attribute, or by none. -/
structure Resolved (value : Option AttributeValue) (fallback : Option String)
    (ms : List VariantMapping) (result : Except FixFailure String) : Prop where
  /-- All mappings that apply agree, or there is no attribute and the fallback is taken. -/
  ok : ∀ v, result = .ok v ↔ (value = none ∧ fallback = some v) ∨
    ∃ source, value = some (.literal source) ∧ (∃ name, IsClass source.toList name) ∧
      ∀ w, IsVariant source.toList ms w ↔ w = v
  /-- Mappings that apply do not agree. -/
  conflict : (∃ vs, result = .error (.ambiguousVariant vs)) ↔
    ∃ source, value = some (.literal source) ∧ (∃ name, IsClass source.toList name) ∧
      ∃ v w, IsVariant source.toList ms v ∧ IsVariant source.toList ms w ∧ v ≠ w
  candidates : ∀ vs, result = .error (.ambiguousVariant vs) → vs.Pairwise (· < ·) ∧
    ∃ source, value = some (.literal source) ∧ ∀ v, v ∈ vs ↔ IsVariant source.toList ms v
  /-- There is nothing to derive a variant from; an attribute without value has no class names. -/
  unmapped : (∃ classes, result = .error (.noVariantMapping classes)) ↔
    (value = none ∧ fallback = none) ∨ value = some .flag ∨
      ∃ source, value = some (.literal source) ∧
        ((∀ name, ¬ IsClass source.toList name) ∨ ∀ v, ¬ IsVariant source.toList ms v)
  /-- The class names are not known. -/
  unsupported : result = .error .unsupported ↔ ∃ source, value = some (.template source) ∨
    value = some (.expression source) ∨ value = some (.spread source)

section

variable {fallback : Option String} {ms ms' : List VariantMapping}

theorem resolveVariant_flag : resolveVariant (some .flag) fallback ms =
    .error (.noVariantMapping "") :=
  rfl

theorem resolved_literal (source : String) : Resolved (some (.literal source)) fallback ms
    (resolveVariant (some (.literal source)) fallback ms) := by
  have hvalue : resolveVariant (some (.literal source)) fallback ms =
    variantOf source.toList ms := rfl
  rw [hvalue]
  refine
    { ok := fun v => ?_
      conflict := ?_
      candidates := fun vs h => ?_
      unmapped := ?_
      unsupported := ?_ }
  · rw [variantOf_eq_ok, variants_eq_singleton]
    simp
  · simp only [variantOf_eq_ambiguous, Option.some.injEq, AttributeValue.literal.injEq,
      exists_eq_left', ← two_le_length_variants]
    exact ⟨fun ⟨vs, hname, hvs, htwo⟩ => ⟨hname, hvs ▸ htwo⟩,
      fun ⟨hname, htwo⟩ => ⟨_, hname, rfl, htwo⟩⟩
  · obtain ⟨-, rfl, -⟩ := variantOf_eq_ambiguous.mp h
    exact ⟨variants_increasing _ _, source, rfl, fun v => mem_variants⟩
  · rw [variantOf_eq_unmapped, variants_eq_nil]
    simp
  · simp [variantOf_ne_unsupported]

theorem resolveVariant_spec (value : Option AttributeValue) :
    Resolved value fallback ms (resolveVariant value fallback ms) := by
  cases value with
  | none => cases fallback <;> constructor <;> simp [resolveVariant]
  | some a =>
    cases a with
    | literal source => exact resolved_literal source
    | template source => constructor <;> simp [resolveVariant]
    | expression source => constructor <;> simp [resolveVariant]
    | spread source => constructor <;> simp [resolveVariant]
    | flag => constructor <;> simp [resolveVariant_flag]

/-- Mappings matter only for class names that are a constant. -/
theorem resolveVariant_eq_of_ne_literal {value : Option AttributeValue}
    (h : ∀ source, value ≠ some (.literal source)) :
    resolveVariant value fallback ms = resolveVariant value fallback ms' := by
  cases value with
  | none => rfl
  | some a =>
    cases a with
    | literal source => exact absurd rfl (h source)
    | template source => rfl
    | expression source => rfl
    | spread source => rfl
    | flag => rw [resolveVariant_flag, resolveVariant_flag]

theorem resolveVariant_congr {value value' : Option AttributeValue} (hc : SameClasses value value')
    (hms : SameMappings ms ms') :
    (∀ v, resolveVariant value fallback ms = .ok v ↔
      resolveVariant value' fallback ms' = .ok v) ∧
    ∀ vs, resolveVariant value fallback ms = .error (.ambiguousVariant vs) ↔
      resolveVariant value' fallback ms' = .error (.ambiguousVariant vs) := by
  unfold SameClasses at hc
  split at hc
  · next source source' =>
    have hvariants : variants (classNames source.toList) ms =
        variants (classNames source'.toList) ms' :=
      variants_congr fun v => isVariant_congr hms hc
    have hnames : (∃ name, IsClass source.toList name) ↔ ∃ name, IsClass source'.toList name :=
      exists_congr hc
    simp [resolveVariant, variantOf_eq_ok, variantOf_eq_ambiguous, hvariants, hnames]
  · next hliteral =>
    subst hc
    rw [@resolveVariant_eq_of_ne_literal fallback ms ms' _ fun source hsource =>
      hliteral source source hsource hsource]
    exact ⟨fun _ => Iff.rfl, fun _ => Iff.rfl⟩

/-- **A variant is never guessed.** It is found only if all mappings that apply agree on it, or in
place of a missing attribute; and neither the order nor repetitions of class names, mappings and
their entries matter, nor class names with a colon. -/
theorem resolveVariant_resolved (value : Option AttributeValue) (fallback : Option String)
    (ms : List VariantMapping) :
    Resolved value fallback ms (resolveVariant value fallback ms) ∧
    ∀ value' ms', SameClasses value value' → SameMappings ms ms' →
      (∀ v, resolveVariant value fallback ms = .ok v ↔
        resolveVariant value' fallback ms' = .ok v) ∧
      ∀ vs, resolveVariant value fallback ms = .error (.ambiguousVariant vs) ↔
        resolveVariant value' fallback ms' = .error (.ambiguousVariant vs) :=
  ⟨resolveVariant_spec value, fun _ _ => resolveVariant_congr⟩

end

/-- An attribute without value is no constant, but the failure is that class names are missing. -/
theorem exists_unmapped_flag : ∃ a : AttributeValue, (∀ source, a ≠ .literal source) ∧
    resolveVariant (some a) none [] ≠ .error .unsupported ∧
    resolveVariant (some a) none [] = .error (.noVariantMapping "") :=
  ⟨.flag, by simp, by simp [resolveVariant_flag], resolveVariant_flag⟩

/-- Mappings in another order, and class names in another order and with one for wide screens. -/
theorem resolveVariant_resolved_red :
    let red : VariantMapping := ⟨["bg-red"], ["px-8"], "destructive"⟩
    let blue : VariantMapping := ⟨["bg-blue", "px"], [], "primary"⟩
    let blue' : VariantMapping := ⟨["px", "bg-blue", "px"], [], "primary"⟩
    (∃ name, IsClass "px-2 bg-red-700".toList name) ∧
    (∀ w, IsVariant "px-2 bg-red-700".toList [red, blue] w ↔ w = "destructive") ∧
    resolveVariant (some (.literal "bg-red-700 md:bg-blue px-2")) none [blue', red, red] =
      .ok "destructive" := by
  intro red blue blue'
  have hok : resolveVariant (some (.literal "px-2 bg-red-700")) none [red, blue] =
    .ok "destructive" := by
    simp only [resolveVariant, variantOf, variants, mergeSort_eq_sortUpTo]
    decide +kernel
  have hblue : blue.Same blue' := ⟨rfl, by simp [blue, blue'], fun _ => Iff.rfl⟩
  have hred : red.Same red := ⟨rfl, fun _ => Iff.rfl, fun _ => Iff.rfl⟩
  have hms : SameMappings [red, blue] [blue', red, red] := by
    refine ⟨?_, ?_⟩ <;> simp [hblue, hred]
  have hclasses : SameClasses (some (.literal "px-2 bg-red-700"))
      (some (.literal "bg-red-700 md:bg-blue px-2")) := by
    intro name
    have hmd : ¬ IsClass "md:bg-blue".toList name :=
      not_isClass_colon (by decide +kernel) (by decide +kernel)
    have hone : "px-2 bg-red-700".toList = "px-2".toList ++ ' ' :: "bg-red-700".toList := rfl
    have htwo : "bg-red-700 md:bg-blue px-2".toList =
        "bg-red-700".toList ++ ' ' :: ("md:bg-blue".toList ++ ' ' :: "px-2".toList) := rfl
    rw [hone, htwo, isClass_append rfl, isClass_append rfl, isClass_append rfl, or_iff_right hmd,
      or_comm]
  obtain ⟨hresolved, hsame⟩ := resolveVariant_resolved (some (.literal "px-2 bg-red-700")) none
    [red, blue]
  obtain ⟨hnone, -⟩ | ⟨source, hsource, hname, hvariant⟩ := (hresolved.ok _).mp hok
  · cases hnone
  · cases hsource
    exact ⟨hname, hvariant, ((hsame _ _ hclasses hms).1 _).mp hok⟩

end DesignLint
