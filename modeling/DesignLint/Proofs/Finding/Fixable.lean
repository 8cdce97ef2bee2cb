import DesignLint.Proofs.Finding.Triage
import DesignLint.Proofs.Rule.Sample

/-!
# Elements that can be fixed

An element can be fixed exactly if its rule has a fix and the element is `Fixable`: its opening tag
has an end, nothing is spread into it, its class names are a constant, its `ref` only hands on a
reference, and its children can be followed to a closing tag (`confidence_triage_element`).

The class names are those of the first attribute with that name, and so is the `ref`. If a name is
given twice, the second attribute is not looked at, although it is the one that a report shows
(`exists_second_className`).
-/

namespace DesignLint

/-- Whether a value is known without evaluating anything. -/
def AttributeValue.isConstant : AttributeValue → Bool
  | .literal _ | .flag => true
  | _ => false

/-- Whether a value is a reference, and nothing else. -/
def AttributeValue.isReference : AttributeValue → Bool
  | .expression source => Value.isReference source.toList
  | _ => false

namespace Element

/-- What an element has to be to be fixed. -/
structure Fixable (e : Element) : Prop where
  terminated : e.terminated = true
  unspread : ∀ a ∈ e.attributes, ∀ source, a.value ≠ .spread source
  className : ∀ a ∈ e.attribute? classAttribute, a.value.isConstant
  ref : ∀ a ∈ e.attribute? "ref", a.value.isReference
  children : e.selfClosing = true ∨ e.closing.isSome = true ∧ e.children = .wellFormed

variable {e : Element} {a : Attribute}

theorem spreads_eq_false :
    e.spreads = false ↔ ∀ a ∈ e.attributes, ∀ source, a.value ≠ .spread source := by
  unfold spreads
  rw [List.any_eq_false]
  refine forall₂_congr fun a _ => ?_
  cases a.value <;> simp

theorem attribute?_eq_some (ha : a ∈ e.attributes)
    (hname : ∀ b ∈ e.attributes, b.name = a.name → b = a) : e.attribute? a.name = some a := by
  cases hfound : e.attribute? a.name with
  | none => simpa using List.find?_eq_none.mp hfound a ha
  | some b =>
    have hb := List.find?_some hfound
    rw [hname b (List.mem_of_find?_eq_some hfound) (by simpa using hb)]

/-- What holds of the attributes that are looked up holds of those with a name of their own. -/
theorem Fixable.of_alone (h : e.Fixable) (ha : a ∈ e.attributes)
    (hname : ∀ b ∈ e.attributes, b.name = a.name → b = a) :
    (a.name = classAttribute → a.value.isConstant) ∧ (a.name = "ref" → a.value.isReference) := by
  have hfound := attribute?_eq_some ha hname
  exact ⟨fun hn => h.className a (hn ▸ hfound), fun hn => h.ref a (hn ▸ hfound)⟩

end Element

section

variable {e : Element}

theorem classObstacle?_eq_none (h : ∀ a ∈ e.attributes, ∀ source, a.value ≠ .spread source) :
    classObstacle? e = none ↔ ∀ a ∈ e.attribute? classAttribute, a.value.isConstant := by
  unfold classObstacle? Element.valueOf?
  cases hfound : e.attribute? classAttribute with
  | none => simp
  | some a =>
    have hspread := h a (List.mem_of_find?_eq_some hfound)
    cases hv : a.value <;> simp_all [AttributeValue.isConstant]

theorem refObstacle?_eq_none :
    refObstacle? e = none ↔ ∀ a ∈ e.attribute? "ref", a.value.isReference := by
  unfold refObstacle? Element.valueOf?
  cases e.attribute? "ref" with
  | none => simp
  | some a => cases hv : a.value <;> simp [hv, AttributeValue.isReference]

theorem childrenObstacle?_eq_none :
    childrenObstacle? e = none ↔ e.children = .selfClosing ∨ e.children = .wellFormed := by
  unfold childrenObstacle?
  cases e.children <;> simp

theorem elementObstacle?_eq_none_iff_fixable {cs name : Text}
    (he : e ∈ Markup.findElements cs name) : elementObstacle? e = none ↔ e.Fixable := by
  obtain ⟨hself, hclosed⟩ := Markup.children_of_mem_findElements he
  rw [elementObstacle?_eq_none, Element.spreads_eq_false, refObstacle?_eq_none,
    childrenObstacle?_eq_none, hself]
  constructor
  · rintro ⟨hterminated, hspread, hclass, href, hchildren⟩
    exact ⟨hterminated, hspread, (classObstacle?_eq_none hspread).mp hclass, href,
      hchildren.imp_right fun hc => ⟨(hclosed hc).2, hc⟩⟩
  · intro h
    exact ⟨h.terminated, h.unspread, (classObstacle?_eq_none h.unspread).mpr h.className, h.ref,
      h.children.imp_right And.right⟩

/-- **An element that was found can be fixed exactly if its rule has a fix and it is fixable**, and
then so it is with all its attributes that have a name of their own. -/
theorem confidence_triage_element {cs name : Text} (he : e ∈ Markup.findElements cs name)
    (r : Rule) :
    ((triage r (.element e)).confidence = .autoFixable ↔ r.autofix ≠ .none ∧ e.Fixable) ∧
      ((triage r (.element e)).confidence = .autoFixable → ∀ a ∈ e.attributes,
        (∀ b ∈ e.attributes, b.name = a.name → b = a) →
          (a.name = classAttribute → a.value.isConstant) ∧
          (a.name = "ref" → a.value.isReference)) := by
  have hiff : (triage r (.element e)).confidence = .autoFixable ↔
      r.autofix ≠ .none ∧ e.Fixable := by
    have hnone : obstacle? r (.element e) = none ↔ r.autofix ≠ .none ∧ e.Fixable := by
      rw [obstacle?, Option.orElse_eq_orElse, Option.orElse_eq_or, Option.or_eq_none_iff,
        elementObstacle?_eq_none_iff_fixable he, Rule.obstacle?_eq_none, and_comm]
    rw [← hnone, triage]
    cases obstacle? r (.element e) <;> simp [Resolution.manual, Resolution.fixable]
  exact ⟨hiff, fun hfix a ha hname => (hiff.mp hfix).2.of_alone ha hname⟩

end

/-- A rule that renames buttons. -/
def buttonRule : Rule :=
  ⟨"button", .componentUsage, .high, .tag "button", .rename "Button", none, none, none⟩

/-- A button with class names and a reference can be renamed. -/
theorem confidence_triage_element_button :
    let text := "<button className=\"a\" ref=\x7br\x7d>x</button>".toList
    ∃ e ∈ Markup.findElements text "button".toList,
      (triage buttonRule (.element e)).confidence = .autoFixable ∧ e.Fixable ∧
        ∀ a ∈ e.attributes, a.name = classAttribute → a.value.isConstant := by
  intro text
  have hfound : ∃ e ∈ Markup.findElements text "button".toList,
      (triage buttonRule (.element e)).confidence = .autoFixable ∧
        ∀ a ∈ e.attributes, ∀ b ∈ e.attributes, b.name = a.name → b = a := by decide +kernel
  obtain ⟨e, he, hfix, halone⟩ := hfound
  have hboth := confidence_triage_element he buttonRule
  exact ⟨e, he, hfix, (hboth.1.mp hfix).2,
    fun a ha => (hboth.2 hfix a ha (halone a ha)).1⟩

/-- A button can be renamed although the second of its class names is not known. -/
theorem exists_second_className :
    let text := "<button className=\"a\" className=\x7bx\x7d/>".toList
    (RuleSpec.ofTag "button" (.substitution (some "Button") [])).compile = .ok buttonRule ∧
      ∃ e ∈ Markup.findElements text "button".toList,
        (triage buttonRule (.element e)).confidence = .autoFixable ∧
          ∃ a ∈ e.attributes, a.name = classAttribute ∧ a.value.isConstant = false :=
  ⟨rfl, by decide +kernel⟩

end DesignLint
