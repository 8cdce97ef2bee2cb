import DesignLint.Proofs.Rule.Registry
import DesignLint.Proofs.Rule.Sample

/-!
# Which configurations are admissible

`Admissible` says of a pattern, of a fix, of a rule and of a list of rules what it has to be, and
`Flawed` and `Refused` say what is reported of one that is not. The two together decide the outcome
of compiling it (`Decided`): it succeeds exactly if it is admissible, and an error is the outcome
exactly if it is the flaw. Of a list of rules that is the flaw of the first rule that has one
(`decided_compileRules`), and so it is for the registry of a configuration
(`Registry.ofConfig_admissible`).
-/

namespace DesignLint

/-! ### Outcomes -/

/-- When an outcome is a success, and when it is which error. -/
structure Decided {ε α : Type} (x : Except ε α) (admissible : Prop) (refused : ε → Prop) :
    Prop where
  ok_iff : (∃ a, x = .ok a) ↔ admissible
  error_iff : ∀ e, x = .error e ↔ refused e

/-- An outcome is decided by two conditions that leave nothing open. -/
theorem Decided.of {ε α : Type} {x : Except ε α} {admissible : Prop} {refused : ε → Prop}
    (hok : admissible → ∃ a, x = .ok a) (herror : ∀ e, refused e → x = .error e)
    (hor : admissible ∨ ∃ e, refused e) : Decided x admissible refused := by
  refine ⟨⟨?_, hok⟩, fun e => ⟨fun h => ?_, herror e⟩⟩
  · rintro ⟨a, rfl⟩
    refine hor.resolve_right ?_
    rintro ⟨e, he⟩
    cases herror e he
  · rcases hor with hadm | ⟨e', he'⟩
    · obtain ⟨a, rfl⟩ := hok hadm
      cases h
    · cases h.symm.trans (herror e' he')
      exact he'

/-! ### Patterns -/

/-- A regular expression that can be compiled. -/
def Regex.Compiles (source : String) : Prop := ∃ r, Regex.ofText source = .ok r

theorem isTagName_iff {name : String} :
    isTagName name ↔ name ≠ "" ∧ ∀ d ∈ name.toList, d.isAlphanum ∨ d = '-' ∨ d = '.' := by
  simp [isTagName, or_assoc]

/-- Whether elements are looked for. -/
def PatternSpec.isTag : PatternSpec → Bool
  | .tag _ => true
  | _ => false

/-- Whether elements are looked for. -/
def Pattern.isTag : Pattern → Bool
  | .tag _ => true
  | _ => false

/-- What a rule in a category may look for. -/
inductive PatternSpec.Admissible : Category → PatternSpec → Prop
  | tag {name : String} (hne : name ≠ "")
      (hchars : ∀ d ∈ name.toList, d.isAlphanum ∨ d = '-' ∨ d = '.') :
    Admissible .componentUsage (.tag name)
  | declaration {c : Category} {properties classes : List String} {value : Option String}
      (hc : c ≠ .componentUsage) (hne : properties ≠ [] ∨ classes ≠ [])
      (hvalue : ∀ source ∈ value, Regex.Compiles source) :
    Admissible c (.declaration properties classes value)
  | regex {c : Category} {source : String} (hc : c ≠ .componentUsage)
      (hsource : Regex.Compiles source) : Admissible c (.regex source)

/-- What is wrong with a pattern in a category, the category coming first. -/
inductive PatternSpec.Flawed : Category → PatternSpec → PatternFlaw → Prop
  | tagCategory {c : Category} {name : String} (hc : c ≠ .componentUsage) :
    Flawed c (.tag name) (.tagCategory c)
  | tagName {name : String} (hname : ¬ isTagName name) :
    Flawed .componentUsage (.tag name) (.tagName name)
  | declarationCategory {properties classes : List String} {value : Option String} :
    Flawed .componentUsage (.declaration properties classes value) .declarationCategory
  | declarationEmpty {c : Category} {value : Option String} (hc : c ≠ .componentUsage) :
    Flawed c (.declaration [] [] value) .declarationEmpty
  | declarationRegex {c : Category} {properties classes : List String} {source : String}
      {cause : Regex.ParseError} (hc : c ≠ .componentUsage) (hne : properties ≠ [] ∨ classes ≠ [])
      (hcause : Regex.ofText source = .error cause) :
    Flawed c (.declaration properties classes (some source)) (.regex source cause)
  | regexCategory {source : String} : Flawed .componentUsage (.regex source) .regexCategory
  | regex {c : Category} {source : String} {cause : Regex.ParseError} (hc : c ≠ .componentUsage)
      (hcause : Regex.ofText source = .error cause) : Flawed c (.regex source) (.regex source cause)

theorem compileRegex_of_ok {source : String} {r : Regex} (h : Regex.ofText source = .ok r) :
    compileRegex source = .ok r := by
  rw [compileRegex, h]
  rfl

theorem compileRegex_of_error {source : String} {cause : Regex.ParseError}
    (h : Regex.ofText source = .error cause) :
    compileRegex source = .error (.regex source cause) := by
  rw [compileRegex, h]
  rfl

theorem Category.isToken_iff {c : Category} : c.isToken = true ↔ c ≠ .componentUsage := by
  simp [isToken]

namespace PatternSpec

variable {s : PatternSpec} {c : Category} {f : PatternFlaw}

theorem compile_declaration {properties classes : List String} (hc : c ≠ .componentUsage)
    (hne : properties ≠ [] ∨ classes ≠ []) (value : Option String) :
    (declaration properties classes value).compile c =
      (value.mapM compileRegex).map fun filter => .declaration
        ⟨properties.map fun p => String.ofList (Text.lower (Text.trim p.toList)),
          classes.map fun p => String.ofList (Text.trim p.toList), filter⟩ := by
  have hempty : (properties.isEmpty && classes.isEmpty) = false := by
    rw [Bool.and_eq_false_iff, List.isEmpty_eq_false_iff, List.isEmpty_eq_false_iff]
    exact hne
  rw [compile, Category.isToken_iff.mpr hc, hempty]
  cases value.mapM compileRegex with
  | error e => rfl
  | ok filter => rfl

theorem Admissible.exists_compile (h : s.Admissible c) :
    ∃ p, s.compile c = .ok p ∧ p.isTag = s.isTag := by
  cases h with
  | @tag name hne hchars =>
    refine ⟨.tag name, ?_, rfl⟩
    rw [compile, if_neg (by decide), if_pos (isTagName_iff.mpr ⟨hne, hchars⟩)]
  | @declaration _ _ _ value hc hne hvalue =>
    rw [compile_declaration hc hne]
    cases value with
    | none => exact ⟨_, rfl, rfl⟩
    | some source =>
      obtain ⟨r, hr⟩ := hvalue source rfl
      rw [Option.mapM_some, compileRegex_of_ok hr]
      exact ⟨_, rfl, rfl⟩
  | @regex _ source hc hsource =>
    obtain ⟨r, hr⟩ := hsource
    refine ⟨.regex r, ?_, rfl⟩
    rw [compile, Category.isToken_iff.mpr hc, compileRegex_of_ok hr]
    rfl

theorem Flawed.compile_eq (h : s.Flawed c f) : s.compile c = .error f := by
  cases h with
  | tagCategory hc => rw [compile, if_pos (bne_iff_ne.mpr hc)]
  | tagName hname => rw [compile, if_neg (by decide), if_neg hname]
  | declarationCategory => rfl
  | declarationEmpty hc =>
    rw [compile, Category.isToken_iff.mpr hc]
    rfl
  | declarationRegex hc hne hcause =>
    rw [compile_declaration hc hne, Option.mapM_some, compileRegex_of_error hcause]
    rfl
  | regexCategory => rfl
  | regex hc hcause =>
    rw [compile, Category.isToken_iff.mpr hc, compileRegex_of_error hcause]
    rfl

theorem admissible_or_flawed (c : Category) (s : PatternSpec) :
    s.Admissible c ∨ ∃ f, s.Flawed c f := by
  by_cases hc : c = .componentUsage
  · subst hc
    cases s with
    | tag name =>
      by_cases hname : isTagName name
      · obtain ⟨hne, hchars⟩ := isTagName_iff.mp hname
        exact Or.inl (.tag hne hchars)
      · exact Or.inr ⟨_, .tagName hname⟩
    | declaration properties classes value => exact Or.inr ⟨_, .declarationCategory⟩
    | regex source => exact Or.inr ⟨_, .regexCategory⟩
  · cases s with
    | tag name => exact Or.inr ⟨_, .tagCategory hc⟩
    | declaration properties classes value =>
      by_cases hne : properties ≠ [] ∨ classes ≠ []
      · cases value with
        | none => exact Or.inl (.declaration hc hne (by simp))
        | some source =>
          cases hsource : Regex.ofText source with
          | ok r => exact Or.inl (.declaration hc hne (by simpa using ⟨r, hsource⟩))
          | error cause => exact Or.inr ⟨_, .declarationRegex hc hne hsource⟩
      · obtain ⟨rfl, rfl⟩ : properties = [] ∧ classes = [] := by simpa using hne
        exact Or.inr ⟨_, .declarationEmpty hc⟩
    | regex source =>
      cases hsource : Regex.ofText source with
      | ok r => exact Or.inl (.regex hc ⟨r, hsource⟩)
      | error cause => exact Or.inr ⟨_, .regex hc hsource⟩

theorem isTag_of_compile {p : Pattern} (h : s.compile c = .ok p) : p.isTag = s.isTag := by
  rcases s.admissible_or_flawed c with hadm | ⟨f, hf⟩
  · obtain ⟨q, hq, htag⟩ := hadm.exists_compile
    cases h.symm.trans hq
    exact htag
  · cases h.symm.trans hf.compile_eq

end PatternSpec

/-! ### Fixes -/

/-- How the findings of a rule may be fixed; `tag` tells whether these are elements. -/
inductive AutofixSpec.Admissible : (tag : Bool) → AutofixSpec → Prop
  | none {tag : Bool} : Admissible tag .none
  | rename {component : String} {replacements : List (String × String)}
      (hcomponent : isBlankText component = false) :
    Admissible true (.substitution (some component) replacements)
  | substitute {component : Option String} {replacements : List (String × String)}
      (hne : replacements ≠ []) : Admissible false (.substitution component replacements)
  | remap {component target : String} {fallback : Option String} {mappings : List VariantMapping}
      (hcomponent : isBlankText component = false) (htarget : isBlankText target = false)
      (hmappings : ∀ m ∈ mappings, m.every ≠ []) :
    Admissible true (.remap component target fallback mappings)

/-- What is wrong with a fix. -/
inductive AutofixSpec.Flawed : (tag : Bool) → AutofixSpec → StrategyFlaw → Prop
  | noComponent {component : Option String} {replacements : List (String × String)}
      (hcomponent : ∀ name ∈ component, isBlankText name = true) :
    Flawed true (.substitution component replacements) .noComponent
  | noReplacements {component : Option String} :
    Flawed false (.substitution component []) .noReplacements
  | noTarget {component target : String} {fallback : Option String}
      {mappings : List VariantMapping}
      (h : isBlankText component = true ∨ isBlankText target = true) :
    Flawed true (.remap component target fallback mappings) .noTarget
  | emptyMapping {component target : String} {fallback : Option String}
      {mappings : List VariantMapping} {m : VariantMapping}
      (hcomponent : isBlankText component = false) (htarget : isBlankText target = false)
      (hm : m ∈ mappings) (hempty : m.every = []) :
    Flawed true (.remap component target fallback mappings) .emptyMapping
  | remapOfValue {component target : String} {fallback : Option String}
      {mappings : List VariantMapping} :
    Flawed false (.remap component target fallback mappings) .remapOfValue

theorem Pattern.isTag_iff {p : Pattern} : p.isTag = true ↔ ∃ name, p = .tag name := by
  cases p <;> simp [isTag]

namespace AutofixSpec

variable {s : AutofixSpec} {p : Pattern} {f : StrategyFlaw}

theorem compile_substitution (hp : p.isTag = false) (component : Option String)
    (replacements : List (String × String)) :
    (substitution component replacements).compile p =
      if replacements.isEmpty then .error .noReplacements
      else .ok (.substitute (tokenTable replacements)) := by
  cases p with
  | tag name => cases hp
  | declaration p => rfl
  | regex r => rfl

theorem compile_remap (hp : p.isTag = false) (component target : String)
    (fallback : Option String) (mappings : List VariantMapping) :
    (remap component target fallback mappings).compile p = .error .remapOfValue := by
  cases p with
  | tag name => cases hp
  | declaration p => rfl
  | regex r => rfl

theorem Admissible.exists_compile (h : s.Admissible p.isTag) : ∃ a, s.compile p = .ok a := by
  cases hp : p.isTag with
  | true =>
    rw [hp] at h
    obtain ⟨name, rfl⟩ := Pattern.isTag_iff.mp hp
    cases h with
    | none => exact ⟨.none, rfl⟩
    | @rename component _ hcomponent =>
      exact ⟨.rename component, by simp [compile, hcomponent]⟩
    | @remap component target fallback mappings hcomponent htarget hmappings =>
      refine ⟨.remap component target fallback mappings, ?_⟩
      simpa [compile, hcomponent, htarget] using hmappings
  | false =>
    rw [hp] at h
    cases h with
    | none => exact ⟨.none, rfl⟩
    | substitute hne =>
      rw [compile_substitution hp, List.isEmpty_eq_false_iff.mpr hne]
      exact ⟨_, rfl⟩

theorem Flawed.compile_eq (h : s.Flawed p.isTag f) : s.compile p = .error f := by
  cases hp : p.isTag with
  | true =>
    rw [hp] at h
    obtain ⟨name, rfl⟩ := Pattern.isTag_iff.mp hp
    cases h with
    | @noComponent component _ hcomponent =>
      cases component with
      | none => rfl
      | some component => simp [compile, hcomponent component rfl]
    | noTarget h => simp [compile, h]
    | emptyMapping hcomponent htarget hm hempty =>
      simp only [compile, hcomponent, htarget]
      exact if_pos (List.any_eq_true.mpr ⟨_, hm, by simp [hempty]⟩)
  | false =>
    rw [hp] at h
    cases h with
    | noReplacements => rw [compile_substitution hp]; rfl
    | remapOfValue => exact compile_remap hp ..

theorem admissible_or_flawed (tag : Bool) (s : AutofixSpec) :
    s.Admissible tag ∨ ∃ f, s.Flawed tag f := by
  cases s with
  | none => exact Or.inl .none
  | substitution component replacements =>
    cases tag with
    | true =>
      by_cases h : ∃ name ∈ component, isBlankText name = false
      · obtain ⟨name, rfl, hname⟩ := h
        exact Or.inl (.rename hname)
      · exact Or.inr ⟨_, .noComponent (by simpa using h)⟩
    | false =>
      cases replacements with
      | nil => exact Or.inr ⟨_, .noReplacements⟩
      | cons r rs => exact Or.inl (.substitute (by simp))
  | remap component target fallback mappings =>
    cases tag with
    | false => exact Or.inr ⟨_, .remapOfValue⟩
    | true =>
      by_cases h : isBlankText component = true ∨ isBlankText target = true
      · exact Or.inr ⟨_, .noTarget h⟩
      · obtain ⟨hcomponent, htarget⟩ :
            isBlankText component = false ∧ isBlankText target = false := by
          simpa using h
        by_cases hm : ∃ m ∈ mappings, m.every = []
        · obtain ⟨m, hm, hempty⟩ := hm
          exact Or.inr ⟨_, .emptyMapping hcomponent htarget hm hempty⟩
        · exact Or.inl (.remap hcomponent htarget (by simpa using hm))

end AutofixSpec

/-! ### Rules -/

/-- What a rule has to be, apart from its id. -/
structure RuleSpec.Fits (s : RuleSpec) : Prop where
  pattern : s.pattern.Admissible s.category
  autofix : s.autofix.Admissible s.pattern.isTag

/-- What is reported of a rule behind rules with the ids `taken`: first what is wrong with its id,
then that the id is taken, then what is wrong with its pattern, then what is wrong with its fix. -/
inductive RuleSpec.Refused (taken : List String) (s : RuleSpec) : ConfigError → Prop
  | blankId (hid : isBlankText s.id = true) : Refused taken s (.invalidPattern "" .emptyId)
  | duplicate (hid : isBlankText s.id = false) (htaken : s.id ∈ taken) :
    Refused taken s (.duplicateRule s.id)
  | pattern {flaw : PatternFlaw} (hid : isBlankText s.id = false) (hnew : s.id ∉ taken)
      (hflaw : s.pattern.Flawed s.category flaw) : Refused taken s (.invalidPattern s.id flaw)
  | autofix {flaw : StrategyFlaw} (hid : isBlankText s.id = false) (hnew : s.id ∉ taken)
      (hpattern : s.pattern.Admissible s.category)
      (hflaw : s.autofix.Flawed s.pattern.isTag flaw) :
    Refused taken s (.invalidStrategy s.id flaw)

namespace RuleSpec

variable {s : RuleSpec} {taken taken' : List String} {e : ConfigError}

theorem Fits.exists_compile (h : s.Fits) : ∃ r, s.compile = .ok r := by
  obtain ⟨p, hp, htag⟩ := h.pattern.exists_compile
  obtain ⟨a, ha⟩ := AutofixSpec.Admissible.exists_compile (p := p) (htag ▸ h.autofix)
  exact ⟨_, by rw [compile, hp]; simp only [Except.mapError, bind, Except.bind, ha]; rfl⟩

theorem Refused.congr (h : s.Refused taken e) (hids : ∀ id, id ∈ taken ↔ id ∈ taken') :
    s.Refused taken' e := by
  cases h with
  | blankId hid => exact .blankId hid
  | duplicate hid htaken => exact .duplicate hid ((hids _).mp htaken)
  | pattern hid hnew hflaw => exact .pattern hid (mt (hids _).mpr hnew) hflaw
  | autofix hid hnew hpattern hflaw => exact .autofix hid (mt (hids _).mpr hnew) hpattern hflaw

/-- What is reported of a rule ends the compilation. -/
theorem Refused.compileRules_eq (h : s.Refused taken e) (specs : List RuleSpec) :
    compileRules taken (s :: specs) = .error e := by
  cases h with
  | blankId hid => rw [compileRules, if_pos hid]
  | duplicate hid htaken =>
    rw [compileRules, hid, if_neg Bool.false_ne_true, if_pos (by simpa using htaken)]
  | pattern hid hnew hflaw =>
    rw [compileRules, hid, if_neg Bool.false_ne_true, if_neg (by simpa using hnew), compile,
      hflaw.compile_eq]
    rfl
  | autofix hid hnew hpattern hflaw =>
    obtain ⟨p, hp, htag⟩ := hpattern.exists_compile
    have hfix := AutofixSpec.Flawed.compile_eq (p := p) (htag ▸ hflaw)
    rw [compileRules, hid, if_neg Bool.false_ne_true, if_neg (by simpa using hnew), compile, hp]
    simp only [Except.mapError, bind, Except.bind, hfix]

theorem fits_or_refused (hid : isBlankText s.id = false) (hnew : s.id ∉ taken) :
    s.Fits ∨ ∃ e, s.Refused taken e := by
  rcases s.pattern.admissible_or_flawed s.category with hpattern | ⟨flaw, hflaw⟩
  · rcases s.autofix.admissible_or_flawed s.pattern.isTag with hfix | ⟨flaw, hflaw⟩
    · exact Or.inl ⟨hpattern, hfix⟩
    · exact Or.inr ⟨_, .autofix hid hnew hpattern hflaw⟩
  · exact Or.inr ⟨_, .pattern hid hnew hflaw⟩

end RuleSpec

/-! ### Lists of rules -/

/-- What rules have to be behind rules with the ids `taken`. -/
structure AdmissibleRules (taken : List String) (specs : List RuleSpec) : Prop where
  id : ∀ s ∈ specs, isBlankText s.id = false ∧ s.id ∉ taken
  nodup : (specs.map (·.id)).Nodup
  fits : ∀ s ∈ specs, s.Fits

/-- What is reported of rules is what is reported of the first one of them that is refused. -/
def RefusedRules (taken : List String) (specs : List RuleSpec) (e : ConfigError) : Prop :=
  ∃ before s after, specs = before ++ s :: after ∧ AdmissibleRules taken before ∧
    s.Refused (before.map (·.id) ++ taken) e

section

variable {taken : List String} {s : RuleSpec} {specs : List RuleSpec} {e : ConfigError}

theorem admissibleRules_cons : AdmissibleRules taken (s :: specs) ↔
    (isBlankText s.id = false ∧ s.id ∉ taken ∧ s.Fits) ∧ AdmissibleRules (s.id :: taken) specs := by
  constructor
  · rintro ⟨hid, hnodup, hfits⟩
    rw [List.map_cons, List.nodup_cons] at hnodup
    refine ⟨⟨(hid s (by simp)).1, (hid s (by simp)).2, hfits s (by simp)⟩, fun q hq => ?_,
      hnodup.2, fun q hq => hfits q (by simp [hq])⟩
    have hne : q.id ≠ s.id := fun heq => hnodup.1 (heq ▸ List.mem_map_of_mem hq)
    exact ⟨(hid q (by simp [hq])).1, by simpa [hne] using (hid q (by simp [hq])).2⟩
  · rintro ⟨⟨hid, hnew, hs⟩, hids, hnodup, hfits⟩
    refine ⟨?_, ?_, by simpa using ⟨hs, hfits⟩⟩
    · intro q hq
      rcases List.mem_cons.mp hq with rfl | hq
      · exact ⟨hid, hnew⟩
      · exact ⟨(hids q hq).1, fun hmem => (hids q hq).2 (List.mem_cons_of_mem _ hmem)⟩
    · rw [List.map_cons, List.nodup_cons]
      refine ⟨fun hmem => ?_, hnodup⟩
      obtain ⟨q, hq, heq⟩ := List.mem_map.mp hmem
      exact (hids q hq).2 (by simp [heq])

theorem compileRules_cons (hid : isBlankText s.id = false) (hnew : s.id ∉ taken) {r : Rule}
    (hr : s.compile = .ok r) :
    compileRules taken (s :: specs) = (compileRules (s.id :: taken) specs).map (r :: ·) := by
  rw [compileRules, hid, if_neg Bool.false_ne_true, if_neg (by simpa using hnew), hr]
  cases compileRules (s.id :: taken) specs with
  | error e => rfl
  | ok rules => rfl

theorem AdmissibleRules.exists_compileRules (h : AdmissibleRules taken specs) :
    ∃ rules, compileRules taken specs = .ok rules := by
  induction specs generalizing taken with
  | nil => exact ⟨[], rfl⟩
  | cons s specs ih =>
    obtain ⟨⟨hid, hnew, hs⟩, hrest⟩ := admissibleRules_cons.mp h
    obtain ⟨r, hr⟩ := hs.exists_compile
    obtain ⟨rules, hrules⟩ := ih hrest
    exact ⟨r :: rules, by rw [compileRules_cons hid hnew hr, hrules]; rfl⟩

theorem RefusedRules.compileRules_eq (h : RefusedRules taken specs e) :
    compileRules taken specs = .error e := by
  obtain ⟨before, s, after, rfl, hbefore, hs⟩ := h
  induction before generalizing taken with
  | nil => exact hs.compileRules_eq after
  | cons q before ih =>
    obtain ⟨⟨hid, hnew, hq⟩, hrest⟩ := admissibleRules_cons.mp hbefore
    obtain ⟨r, hr⟩ := hq.exists_compile
    have hs : s.Refused (before.map (·.id) ++ q.id :: taken) e :=
      hs.congr fun id => by simp [or_left_comm]
    rw [List.cons_append, compileRules_cons hid hnew hr, ih hrest hs]
    rfl

theorem admissibleRules_or_refusedRules (taken : List String) (specs : List RuleSpec) :
    AdmissibleRules taken specs ∨ ∃ e, RefusedRules taken specs e := by
  induction specs generalizing taken with
  | nil => exact Or.inl ⟨by simp, by simp, by simp⟩
  | cons s specs ih =>
    have hfirst : ∀ e, s.Refused taken e → RefusedRules taken (s :: specs) e := fun e he =>
      ⟨[], s, specs, rfl, ⟨by simp, by simp, by simp⟩, he⟩
    cases hid : isBlankText s.id with
    | true => exact Or.inr ⟨_, hfirst _ (.blankId hid)⟩
    | false =>
      by_cases hnew : s.id ∈ taken
      · exact Or.inr ⟨_, hfirst _ (.duplicate hid hnew)⟩
      rcases RuleSpec.fits_or_refused hid hnew with hs | ⟨e, he⟩
      swap
      · exact Or.inr ⟨e, hfirst e he⟩
      rcases ih (s.id :: taken) with hrest | ⟨e, before, q, after, rfl, hbefore, hq⟩
      · exact Or.inl (admissibleRules_cons.mpr ⟨⟨hid, hnew, hs⟩, hrest⟩)
      · exact Or.inr ⟨e, s :: before, q, after, rfl,
          admissibleRules_cons.mpr ⟨⟨hid, hnew, hs⟩, hbefore⟩,
          hq.congr fun id => by simp [or_left_comm]⟩

/-- **Rules are compiled exactly if they are admissible, and the error is that of the first rule
that is refused.** -/
theorem decided_compileRules (taken : List String) (specs : List RuleSpec) :
    Decided (compileRules taken specs) (AdmissibleRules taken specs) (RefusedRules taken specs) :=
  .of (fun h => h.exists_compileRules) (fun _ h => h.compileRules_eq)
    (admissibleRules_or_refusedRules taken specs)

end

/-! ### Registries -/

namespace Registry

variable {c : Config} {g : Registry}

theorem decided_ofConfig (c : Config) : Decided (ofConfig c)
    (c.rules ≠ [] ∧ AdmissibleRules [] c.rules)
    fun e => (c.rules = [] ∧ e = .noRules) ∨ RefusedRules [] c.rules e := by
  have h := decided_compileRules [] c.rules
  by_cases hempty : c.rules = []
  · have herror : ofConfig c = .error .noRules := by rw [ofConfig, hempty]; rfl
    refine .of (fun hadm => absurd hempty hadm.1) ?_ (Or.inr ⟨_, Or.inl ⟨hempty, rfl⟩⟩)
    rintro e (⟨-, rfl⟩ | ⟨before, s, after, hsplit, -⟩)
    · exact herror
    · rw [hempty] at hsplit
      simp at hsplit
  · have hcompile : ofConfig c =
        (compileRules [] c.rules).map fun rules => ⟨rules, approvalsOf c rules⟩ := by
      rw [ofConfig, List.isEmpty_eq_false_iff.mpr hempty, if_neg Bool.false_ne_true]
      cases compileRules [] c.rules with
      | error e => rfl
      | ok rules => rfl
    refine .of (fun hadm => ?_) ?_ ?_
    · obtain ⟨rules, hrules⟩ := h.ok_iff.mpr hadm.2
      exact ⟨_, by rw [hcompile, hrules]; rfl⟩
    · rintro e (⟨hnil, -⟩ | hrefused)
      · exact absurd hnil hempty
      · rw [hcompile, (h.error_iff e).mpr hrefused]
        rfl
    · rcases admissibleRules_or_refusedRules [] c.rules with hadm | ⟨e, he⟩
      · exact Or.inl ⟨hempty, hadm⟩
      · exact Or.inr ⟨e, Or.inr he⟩

theorem rule?_eq_some_iff (h : ofConfig c = .ok g) {id : String} {r : Rule} :
    g.rule? id = some r ↔ r ∈ g.rules ∧ r.id = id := by
  constructor
  · intro hr
    exact ⟨List.mem_of_find?_eq_some hr, by simpa using List.find?_some hr⟩
  · rintro ⟨hr, rfl⟩
    exact rule?_eq_some h hr

/-- **A configuration has a registry exactly if it has rules and all of them are admissible.**
Otherwise the error is that of the first rule that is refused. The registry has the rules in their
order, finds each under its id, and no rule has a fix that does not fit what it looks for. -/
theorem ofConfig_admissible (c : Config) :
    ((∃ g, ofConfig c = .ok g) ↔ c.rules ≠ [] ∧ AdmissibleRules [] c.rules) ∧
    (∀ e, ofConfig c = .error e ↔
      (c.rules = [] ∧ e = .noRules) ∨ RefusedRules [] c.rules e) ∧
    ∀ g, ofConfig c = .ok g →
      List.Forall₂ (fun s r => s.compile = .ok r ∧ r.id = s.id) c.rules g.rules ∧
      (∀ id r, g.rule? id = some r ↔ r ∈ g.rules ∧ r.id = id) ∧
      ∀ r ∈ g.rules, r.pattern.admits r.autofix := by
  obtain ⟨hok, herror⟩ := decided_ofConfig c
  refine ⟨hok, herror, fun g hg => ⟨?_, fun id r => rule?_eq_some_iff hg, ?_⟩⟩
  · exact (forall₂_of_ofConfig hg).1.imp fun s r hr => ⟨hr, (RuleSpec.compile_eq_ok hr).1⟩
  · exact fun r hr => admits_of_ofConfig hg hr

/-- A tag with variants and colours with tokens are admissible; a rule whose id is taken is refused,
whatever is wrong with the rules behind it. -/
theorem ofConfig_admissible_button :
    let button := RuleSpec.ofTag "button"
      (.remap "Button" "variant" none [⟨["bg-red"], [], "danger"⟩])
    let color := RuleSpec.ofColor [("#fff", "var(--w)")]
    (∃ g, ofConfig (.ofRules [button, color]) = .ok g ∧ ∃ q r, g.rules = [q, r] ∧
      g.rule? "button" = some q ∧ g.rule? "color" = some r) ∧
    ofConfig (.ofRules [button, button, .ofTag "" .none]) = .error (.duplicateRule "button") := by
  intro button color
  have hbutton : button.Fits := by
    obtain ⟨hne, hchars⟩ := isTagName_iff.mp (by decide : isTagName "button" = true)
    exact ⟨.tag hne hchars, .remap (by decide) (by decide) (by simp)⟩
  have hcolor : color.Fits := by
    refine ⟨.declaration (by decide) (by simp) (by simp), .substitute (by simp)⟩
  constructor
  · have h := ofConfig_admissible (.ofRules [button, color])
    have hadm : AdmissibleRules [] [button, color] :=
      ⟨by decide +kernel, by decide +kernel, by simpa using ⟨hbutton, hcolor⟩⟩
    obtain ⟨g, hg⟩ := h.1.mpr ⟨by decide, hadm⟩
    obtain ⟨hrules, hrule, -⟩ := h.2.2 g hg
    obtain ⟨q, qs, ⟨-, hq⟩, hrest, hqs⟩ := List.forall₂_cons_left_iff.mp hrules
    obtain ⟨r, rs, ⟨-, hr⟩, hnil, rfl⟩ := List.forall₂_cons_left_iff.mp hrest
    obtain rfl := List.forall₂_nil_left_iff.mp hnil
    refine ⟨g, hg, q, r, hqs, ?_, ?_⟩
    · exact (hrule _ q).mpr ⟨by simp [hqs], hq⟩
    · exact (hrule _ r).mpr ⟨by simp [hqs], hr⟩
  · have h := ofConfig_admissible (.ofRules [button, button, .ofTag "" .none])
    refine (h.2.1 _).mpr (Or.inr ⟨[button], button, [.ofTag "" .none], rfl, ?_, ?_⟩)
    · exact ⟨by decide +kernel, by decide +kernel, by simpa using hbutton⟩
    · exact .duplicate (by decide +kernel) (by decide +kernel)

end Registry

end DesignLint
