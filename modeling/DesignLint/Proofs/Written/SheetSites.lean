import DesignLint.Proofs.Written.Declaration

/-!
# Declarations that are found in a sheet

A scan goes over the parts of a sheet one behind the other (`Yields`). It finds the watched
declarations of a block (`Block.yields`), and so, by induction on the blocks, those of the sheet
(`sheetSites_text`).

The values of a readable sheet are listed in the order of its declarations
(`DeclarationPattern.sites_writtenSheet`). A value behind a line break is not found
(`DeclarationPattern.exists_declaration_missed`).
-/

namespace DesignLint.Style

/-- The values that are found in a masked text from an offset on. -/
def found (original : Text) (properties : List Text) (before : Option Char) (o : Nat)
    (mask : Text) : List ValueSite :=
  (declarations properties 0 before o mask).filterMap (·.site? original 0)

/-- What a scan does where it comes to a text `us`, of which the mask shows `ms`, with a text still
to go over for which `P` holds: it finds some values in it, and comes behind it with a text still to
go over for which `Q` holds. -/
def Yields (properties : List Text) (P Q : Text → Prop) (us ms : Text)
    (sites : Nat → List ValueSite) : Prop :=
  ∀ original pre post : Text, original = pre ++ (us ++ post) →
    ∀ (lead : Text) (before : Option Char) (o : Nat) (rest : Text), P lead →
      o + lead.size = pre.size →
        ∃ (lead' : Text) (before' : Option Char) (o' : Nat), Q lead' ∧
          o' + lead'.size = pre.size + us.size ∧
          found original properties before o (lead ++ (ms ++ rest)) =
            sites pre.size ++ found original properties before' o' (lead' ++ rest)

/-- The places in parts of a text, the first of which starts at an offset. -/
def sitesAlong {α : Type} (text : α → Text) (sites : Nat → α → List ValueSite) (o : Nat) :
    List α → List ValueSite
  | [] => []
  | x :: xs => sites o x ++ sitesAlong text sites (o + (text x).size) xs

section

variable {properties : List Text} {P Q R : Text → Prop}

namespace Yields

theorem append {us vs ms ns : Text} {s t : Nat → List ValueSite}
    (hu : Yields properties P Q us ms s) (hv : Yields properties Q R vs ns t) :
    Yields properties P R (us ++ vs) (ms ++ ns) fun o => s o ++ t (o + us.size) := by
  intro original pre post horiginal lead before o rest hlead hpre
  obtain ⟨lead', before', o', hlead', ho', hus⟩ := hu original pre (vs ++ post)
    (by simp [horiginal]) lead before o (ns ++ rest) hlead hpre
  obtain ⟨lead'', before'', o'', hlead'', ho'', hvs⟩ := hv original (pre ++ us) post
    (by simp [horiginal]) lead' before' o' rest hlead' (by rw [ho', Text.size_append])
  refine ⟨lead'', before'', o'', hlead'', ?_, ?_⟩
  · rw [ho'', Text.size_append, Text.size_append, Nat.add_assoc]
  · rw [List.append_assoc, hus, hvs, Text.size_append, List.append_assoc]

theorem nothing {us ms : Text} (hsize : ms.size = us.size) (h : ∀ lead, P lead → Q (lead ++ ms)) :
    Yields properties P Q us ms fun _ => [] := by
  intro original pre post horiginal lead before o rest hlead hpre
  refine ⟨lead ++ ms, before, o, h lead hlead, ?_, ?_⟩
  · rw [Text.size_append, hsize, ← Nat.add_assoc, hpre]
  · rw [List.append_assoc, List.nil_append]

theorem flatMap {α : Type} {text mask : α → Text} {sites : Nat → α → List ValueSite} {xs : List α}
    (h : ∀ x ∈ xs, Yields properties P P (text x) (mask x) (sites · x)) :
    Yields properties P P (xs.flatMap text) (xs.flatMap mask) (sitesAlong text sites · xs) := by
  induction xs with
  | nil => exact nothing rfl fun lead hlead => by simpa using hlead
  | cons x xs ih => exact (h x (by simp)).append (ih fun y hy => h y (by simp [hy]))

end Yields

/-- The value of a declaration that starts at an offset, if its property is watched. -/
def WrittenDeclaration.sites (properties : List Text) (o : Nat) (d : WrittenDeclaration) :
    List ValueSite :=
  if d.watched properties then [d.site o] else []

theorem WrittenDeclaration.Declared.site? {d : WrittenDeclaration} {extra behind : Text}
    (h : d.Declared extra behind) {original pre post : Text}
    (horiginal : original = pre ++ (d.text ++ post)) (us vs : Text) :
    Declaration.site? original 0 ⟨d.name, ⟨pre.size + d.front.size, us⟩,
      ⟨pre.size + d.front.size + Text.size (d.value ++ extra), vs⟩⟩ = some (d.site pre.size) := by
  have hslice : original.slice ⟨pre.size + d.front.size,
      pre.size + d.front.size + Text.size (d.value ++ extra)⟩ = d.value ++ extra := by
    have hsplit : original = (pre ++ d.front) ++ (d.value ++ extra) ++ (behind ++ post) := by
      simp [horiginal, text, h.tail]
    rw [hsplit, ← Text.size_append, Text.slice_append]
  simp only [Declaration.site?, hslice, h.withoutImportance, beq_iff_eq, d.value_ne_nil, if_false,
    Nat.zero_add]
  rfl

variable (hprops : ∀ q ∈ properties, PropertyName q)

include hprops

/-- **In a declaration, its value is found if its property is watched**, and nothing else. -/
theorem WrittenDeclaration.yields {d : WrittenDeclaration} (hread : d.Readable properties) :
    Yields properties Leads Leads d.text d.text (d.sites properties) := by
  intro original pre post horiginal lead before o rest hlead hpre
  obtain ⟨extra, behind, hextra⟩ := d.exists_declared
  by_cases hd : d.watched properties
  · obtain ⟨before', heq⟩ := exists_declarations_watched hprops hlead hd hextra rest before o
    rw [hpre] at heq
    have hsite := hextra.site? horiginal (d.value ++ (d.tail ++ rest)) (behind ++ rest)
    refine ⟨behind, before', pre.size + d.front.size + Text.size (d.value ++ extra),
      hextra.leads, ?_, ?_⟩
    · simp only [text, hextra.tail, Text.size_append]
      omega
    · simp only [found, heq, List.filterMap_cons, hsite, sites, if_pos hd, List.singleton_append]
  · obtain ⟨before', heq⟩ := exists_declarations_unwatched hprops hlead hd hread rest before o
    rw [hpre] at heq
    refine ⟨d.tail, before', pre.size + Text.size (d.front ++ d.value), d.leads_tail, ?_, ?_⟩
    · simp only [text, Text.size_append]
      omega
    · simp only [found, heq, sites, if_neg hd, List.nil_append]

omit hprops in
theorem yields_spacing (hP : ∀ us vs : Text, P us → (∀ c ∈ vs, isBlank c) → P (us ++ vs))
    (ss : List SheetSpacing) : Yields properties P P (ss.flatMap SheetSpacing.text)
      (ss.flatMap SheetSpacing.mask) fun _ => [] :=
  .nothing (size_mask ss) fun lead hlead => hP lead _ hlead fun _ => isBlank_of_mem_mask

end

theorem colon_not_mem_append {us vs : Text} (hus : ':' ∉ us) (hvs : ∀ c ∈ vs, isBlank c) :
    ':' ∉ us ++ vs := by
  rw [List.mem_append, not_or]
  exact ⟨hus, fun hmem => absurd (hvs _ hmem) (by decide)⟩

/-- The values of the watched declarations of a block that starts at an offset. -/
def Block.sites (properties : List Text) (o : Nat) (b : Block) : List ValueSite :=
  sitesAlong (renderDeclaration SheetSpacing.text)
    (fun o d => d.2.sites properties (o + Text.size (d.1.flatMap SheetSpacing.text)))
    (o + (b.renderFront SheetSpacing.text).size) b.declarations

/-- The values of the watched declarations of a sheet. -/
def WrittenSheet.sites (properties : List Text) (x : WrittenSheet) : List ValueSite :=
  sitesAlong (Block.render SheetSpacing.text) (Block.sites properties) 0 x.blocks

/-- The declarations of a sheet. -/
def WrittenSheet.declarations (x : WrittenSheet) : List WrittenDeclaration :=
  x.blocks.flatMap fun b => b.declarations.map Prod.snd

section

variable {properties : List Text} (hprops : ∀ q ∈ properties, PropertyName q)

include hprops

/-- **In a block, the values of its watched declarations are found**, in their order. -/
theorem Block.yields {b : Block} (h : ∀ d ∈ b.declarations, d.2.Readable properties) :
    Yields properties (':' ∉ ·) (':' ∉ ·) (b.render SheetSpacing.text) (b.render SheetSpacing.mask)
      (b.sites properties) := by
  have hselector : Yields properties (':' ∉ ·) Leads (b.selector.text ++ ['\x7b'])
      (b.selector.text ++ ['\x7b']) fun _ => [] := by
    refine .nothing rfl fun lead hlead => ?_
    have hcolon : ':' ∉ lead ++ b.selector.text := by simpa [b.selector.not_mem] using hlead
    rw [← List.append_assoc]
    exact .start hcolon (Or.inr rfl)
  have hend : Yields properties Leads (':' ∉ ·) ['\x7d'] ['\x7d'] fun _ => [] := by
    refine .nothing rfl fun lead hlead => ?_
    simpa using hlead.colon_not_mem
  -- from the brace on, each declaration leaves a text behind which the next one can stand
  have hdeclarations := Yields.flatMap fun d (hd : d ∈ b.declarations) =>
    (yields_spacing (fun _ _ => Leads.append) d.1).append
      (WrittenDeclaration.yields hprops (h d hd))
  have hall := ((yields_spacing (fun _ _ => colon_not_mem_append) b.lead).append hselector).append
    (hdeclarations.append ((yields_spacing (fun _ _ => Leads.append) b.trail).append hend))
  simp only [List.nil_append, List.append_nil] at hall
  exact hall

/-- **The values that a scan finds in a sheet are those of its watched declarations.** -/
theorem sheetSites_text {x : WrittenSheet} (h : ∀ d ∈ x.declarations, d.Readable properties) :
    sheetSites properties x.text = x.sites properties := by
  have hblocks := Yields.flatMap fun b (hb : b ∈ x.blocks) => Block.yields hprops fun d hd =>
    h d.2 (List.mem_flatMap.mpr ⟨b, hb, List.mem_map_of_mem hd⟩)
  obtain ⟨lead, before, o, hlead, -, hsites⟩ :=
    hblocks.append (yields_spacing (fun _ _ => colon_not_mem_append) x.trail) x.text [] []
      (by simp [WrittenSheet.text, WrittenSheet.render]) [] none 0 [] (by simp) rfl
  -- what is left behind the last declaration has no colon, so nothing is found there
  have hnothing : ∀ ws, ws <:+ lead → ¬ Declares properties (ws ++ []) := fun ws hws =>
    not_declares_of_not_mem hprops fun hmem => hlead (hws.subset (by simpa using hmem))
  obtain ⟨before', hend⟩ := exists_declarations_skip hnothing before o
  have hnone : found x.text properties before o (lead ++ []) = [] := by
    rw [found, hend]
    rfl
  rw [hnone] at hsites
  simp only [List.append_nil, List.nil_append] at hsites
  rw [sheetSites, declarationSites, maskComments_text]
  exact hsites

end

/-! ### Order -/

/-- Places that follow each other from one offset on and in front of another one. -/
def Between (start stop : Nat) (vs : List ValueSite) : Prop :=
  vs.Pairwise (fun v w => v.span.le w.span) ∧ ∀ v ∈ vs, start ≤ v.span.start ∧ v.span.start < stop

namespace Between

theorem mono {a b a' b' : Nat} {vs : List ValueSite} (h : Between a b vs) (ha : a' ≤ a)
    (hb : b ≤ b') : Between a' b' vs :=
  ⟨h.1, fun v hv => ⟨ha.trans (h.2 v hv).1, (h.2 v hv).2.trans_le hb⟩⟩

theorem append {a b c : Nat} {vs ws : List ValueSite} (hv : Between a b vs) (hw : Between b c ws)
    (hab : a ≤ b) (hbc : b ≤ c) : Between a c (vs ++ ws) := by
  refine ⟨List.pairwise_append.mpr ⟨hv.1, hw.1, fun v hmem w hmem' => ?_⟩, fun v hmem => ?_⟩
  · have := (hv.2 v hmem).2
    have := (hw.2 w hmem').1
    simp only [Span.le, Bool.or_eq_true, decide_eq_true_eq]
    omega
  · rcases List.mem_append.mp hmem with hmem | hmem
    · exact ((hv.mono le_rfl hbc).2 v hmem)
    · exact ((hw.mono hab le_rfl).2 v hmem)

theorem sitesAlong {α : Type} {text : α → Text} {sites : Nat → α → List ValueSite} {xs : List α}
    (h : ∀ o, ∀ x ∈ xs, Between o (o + (text x).size) (sites o x)) (o : Nat) :
    Between o (o + Text.size (xs.flatMap text)) (Style.sitesAlong text sites o xs) := by
  induction xs generalizing o with
  | nil => exact ⟨.nil, by simp [Style.sitesAlong]⟩
  | cons x xs ih =>
    have hrest := ih (fun o y hy => h o y (by simp [hy])) (o + (text x).size)
    rw [List.flatMap_cons, Text.size_append, ← Nat.add_assoc]
    exact (h o x (by simp)).append hrest (by omega) (by omega)

end Between

theorem WrittenDeclaration.between (properties : List Text) (o : Nat) (d : WrittenDeclaration) :
    Between o (o + d.text.size) (d.sites properties o) := by
  have := Text.size_pos d.value_ne_nil
  unfold sites
  split_ifs
  · refine ⟨List.pairwise_singleton _ _, fun v hv => ?_⟩
    rw [List.mem_singleton.mp hv]
    simp only [site, text, Text.size_append]
    omega
  · exact ⟨.nil, by simp⟩

theorem Block.between (properties : List Text) (o : Nat) (b : Block) :
    Between o (o + (b.render SheetSpacing.text).size) (b.sites properties o) := by
  have hdeclaration : ∀ o, ∀ d ∈ b.declarations,
      Between o (o + Text.size (renderDeclaration SheetSpacing.text d))
        (d.2.sites properties (o + Text.size (d.1.flatMap SheetSpacing.text))) := fun o d _ =>
    (d.2.between properties (o + Text.size (d.1.flatMap SheetSpacing.text))).mono (by omega)
      (by rw [renderDeclaration, Text.size_append, Nat.add_assoc])
  have h := Between.sitesAlong hdeclaration (o + (b.renderFront SheetSpacing.text).size)
  refine h.mono (by omega) ?_
  simp only [render, Text.size_append]
  omega

/-! ### What is listed -/

theorem map_sitesAlong {α β : Type} {text : α → Text} {sites : Nat → α → List ValueSite}
    {f : ValueSite → β} {g : α → List β} (h : ∀ o x, (sites o x).map f = g x) (o : Nat)
    (xs : List α) : (sitesAlong text sites o xs).map f = xs.flatMap g := by
  induction xs generalizing o with
  | nil => rfl
  | cons x xs ih => rw [sitesAlong, List.map_append, h, ih, List.flatMap_cons]

theorem WrittenDeclaration.map_sites (properties : List Text) (o : Nat) (d : WrittenDeclaration) :
    (d.sites properties o).map (fun v => (v.property, v.value)) =
      if d.watched properties then [(d.property, d.value)] else [] := by
  unfold sites
  split_ifs <;> rfl

/-- There is one value for each watched declaration, with its property. -/
theorem WrittenSheet.map_sites (properties : List Text) (x : WrittenSheet) :
    (x.sites properties).map (fun v => (v.property, v.value)) =
      (x.declarations.filter (·.watched properties)).map fun d => (d.property, d.value) := by
  have hblock : ∀ o b, (Block.sites properties o b).map (fun v => (v.property, v.value)) =
      ((b.declarations.map Prod.snd).filter (·.watched properties)).map
        fun d => (d.property, d.value) := by
    intro o b
    rw [Block.sites, map_sitesAlong fun o d => d.2.map_sites properties _]
    induction b.declarations with
    | nil => rfl
    | cons d ds ih =>
      rw [List.flatMap_cons, ih, List.map_cons, List.filter_cons]
      split_ifs <;> rfl
  rw [sites, map_sitesAlong hblock, declarations, List.filter_flatMap, List.map_flatMap]

theorem WrittenSheet.sites_nil (x : WrittenSheet) : x.sites [] = [] := by
  have h := x.map_sites []
  rw [List.filter_eq_nil_iff.mpr (by simp [WrittenDeclaration.watched])] at h
  exact List.map_eq_nil_iff.mp h

end DesignLint.Style

namespace DesignLint

open Style in
/-- **A readable style sheet is read completely**: the values that are found in it are those of its
declarations with a watched property, in their order. -/
theorem DeclarationPattern.sites_writtenSheet {p : DeclarationPattern} {file : Source}
    (hclasses : p.classes = []) (hkind : file.kind = .stylesheet)
    (hnames : ∀ q ∈ p.properties, PropertyName q.toList) {x : WrittenSheet}
    (htext : file.text = x.text)
    (hx : ∀ d ∈ x.declarations, d.Readable (p.properties.map String.toList)) :
    let properties := p.properties.map String.toList
    p.sites file = x.sites properties ∧
      (p.sites file).map (fun v => (v.property, v.value)) =
        (x.declarations.filter (·.watched properties)).map fun d => (d.property, d.value) := by
  intro properties
  have hnames' : ∀ q ∈ properties, PropertyName q := by
    intro us hus
    obtain ⟨q, hq, rfl⟩ := List.mem_map.mp hus
    exact hnames q hq
  have hunsorted : unsortedSites p file = x.sites properties := by
    have hdeclared : unsortedSites p file =
        if properties.isEmpty then [] else sheetSites properties file.text := by
      simp only [unsortedSites, hclasses, hkind, List.isEmpty_nil, if_true, List.append_nil]
      rfl
    rw [hdeclared, htext, sheetSites_text hnames' hx]
    split_ifs with hempty
    · rw [List.isEmpty_iff.mp hempty, x.sites_nil]
    · rfl
  have hsites : p.sites file = x.sites properties := by
    rw [DeclarationPattern.sites, hunsorted]
    exact List.mergeSort_of_pairwise (Between.sitesAlong (fun o b _ => b.between _ o) 0).1
  exact ⟨hsites, by rw [hsites, x.map_sites]⟩

namespace Style

/-- A declaration that is written without blanks, up to a space in front of its value. -/
def tightDeclaration (name value : Text)
    (hname : name ≠ [] ∧ name.all fun c => c.isAlpha ∨ c = '-')
    (hvalue : value ≠ [] ∧ (value.all fun c => c ∉ [';', '\x7b', '\x7d', '/', '!', '\n']) ∧
      Text.trim value = value) : WrittenDeclaration where
  name := name
  beforeColon := []
  pad := [' ']
  value := value
  behindValue := []
  importance := []
  beforeEnd := []
  name_ne_nil := hname.1
  name_letters := List.all_iff_forall_prop.mp hname.2
  isBlank := by simp
  isPad := by simp [isPad]
  value_ne_nil := hvalue.1
  value_plain := List.all_iff_forall_prop.mp hvalue.2.1
  trim_value := hvalue.2.2
  importance_eq := Or.inl rfl

/-- The declaration `top: 1px`. -/
def topDeclaration : WrittenDeclaration :=
  tightDeclaration "top".toList "1px".toList (by decide +kernel) (by decide +kernel)

/-- The declaration `COLOR: red !important`. -/
def colorDeclaration : WrittenDeclaration :=
  { tightDeclaration "COLOR".toList "red".toList (by decide +kernel) (by decide +kernel) with
    behindValue := [' ']
    importance := "!important".toList
    isBlank := List.all_iff_forall_prop.mp (by decide)
    importance_eq := Or.inr (by decide +kernel) }

/-- The selector `p`. -/
def paragraph : Selector where
  text := ['p']
  not_mem := by decide
  block := by decide
  line := by
    intro as bs cs h
    have := congrArg List.length h
    simp only [List.length_append, List.length_cons, List.length_nil] at this
    omega

/-- The sheet `p{/*n*/top: 1px; COLOR: red !important;}`. -/
def paragraphSheet : WrittenSheet where
  blocks := [⟨[], paragraph, [([.comment ⟨['n'], by decide⟩], topDeclaration),
    ([.blank ' ' isBlank_space], colorDeclaration)], []⟩]
  trail := []

end Style

open Style in
/-- Behind a comment and a declaration that is not watched, the important value is found. -/
theorem DeclarationPattern.sites_writtenSheet_color :
    let p : DeclarationPattern := ⟨["color"], [], none⟩
    let file := Source.ofText "a.css"
      "p\x7b/*n*/top: 1px; COLOR: red !important;\x7d".toList
    p.sites file = [⟨⟨24, 27⟩, "red".toList, "color".toList, .declaration⟩] := by
  intro p file
  have hname : PropertyName "color".toList :=
    ⟨by decide, by decide +kernel, List.all_iff_forall_prop.mp (by decide),
      List.all_iff_forall_prop.mp (by decide)⟩
  have hproperties : p.properties.map String.toList = ["color".toList] := rfl
  have hx : ∀ d ∈ paragraphSheet.declarations, d.Readable (p.properties.map String.toList) := by
    intro d hd hwatched us vs heq _
    have hd : d = topDeclaration ∨ d = colorDeclaration := by
      simpa [paragraphSheet, WrittenSheet.declarations] using hd
    rcases hd with rfl | rfl
    · refine not_declares_of_not_mem (by simpa [hproperties] using hname) fun hmem => ?_
      have hmem : ':' ∈ topDeclaration.pad ++ topDeclaration.value := by simp [heq, hmem]
      exact absurd hmem (by decide +kernel)
    · exact absurd hwatched (by decide +kernel)
  have hkind : file.kind = .stylesheet := rfl
  have htext : file.text = paragraphSheet.text := by decide +kernel
  rw [(p.sites_writtenSheet rfl hkind (by simpa [p] using hname) htext hx).1]
  decide +kernel

/-- A value behind a line break is not found. -/
theorem DeclarationPattern.exists_declaration_missed : ∃ (p : DeclarationPattern) (file : Source)
    (selector name blanks value : Text), p.classes = [] ∧ file.kind = .stylesheet ∧
      file.text = selector ++ '\x7b' :: (name ++ ':' :: (blanks ++ (value ++ [';', '\x7d']))) ∧
      (∀ c ∈ selector ++ name ++ value, c.isAlpha) ∧ (∀ c ∈ blanks, c = ' ' ∨ c = '\n') ∧
      String.ofList (Text.lower name) ∈ p.properties ∧ p.sites file = [] := by
  let p : DeclarationPattern := ⟨["color"], [], none⟩
  let file := Source.ofText "a.css" "p\x7bcolor:\n red;\x7d".toList
  have hsites : Style.unsortedSites p file = [] := by decide +kernel
  refine ⟨p, file, "p".toList, "color".toList, "\n ".toList, "red".toList, rfl, rfl,
    by decide +kernel, List.all_iff_forall_prop.mp (by decide),
    List.all_iff_forall_prop.mp (by decide), by decide +kernel, ?_⟩
  rw [DeclarationPattern.sites, hsites, List.mergeSort_nil]

end DesignLint
