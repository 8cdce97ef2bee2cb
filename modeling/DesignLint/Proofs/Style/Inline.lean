import DesignLint.Proofs.Markup.Enclosure
import DesignLint.Proofs.Style.Site
import DesignLint.Proofs.Text.Blank
import DesignLint.Style.Inline
import Mathlib.Data.Option.Basic

/-!
# Where values of style objects are

The entries of an object stand between commas, or the ends of the object (`mem_entries`); the value
of an entry stands behind its colon, up to blanks, and if it is a string, between its quotes. So it
is on the text and framed in it (`on_of_mem_inlineSites`).
-/

namespace DesignLint.Style

/-! ### Style objects -/

theorem styleBrace?_spec {k l : Cursor} (h : styleBrace? k = some l) :
    (∃ us, k.Passes us l) ∧ l.rest.head? = some '\x7b' := by
  unfold styleBrace? at h
  simp only [Option.bind_eq_bind, Option.bind_eq_some_iff] at h
  obtain ⟨k1, h1, k2, h2, k3, h3, h⟩ := h
  split_ifs at h with hb
  cases h
  obtain ⟨us1, hus1, -, -⟩ := Cursor.exists_skipWhile isBlank k1
  obtain ⟨us2, hus2, -, -⟩ := Cursor.exists_skipWhile isBlank k2
  obtain ⟨us3, hus3, -, -⟩ := Cursor.exists_skipWhile isBlank k3
  have p1 := (Cursor.skipText_passes h1).trans hus1
  have p2 := (p1.trans (Cursor.skipText_passes h2)).trans hus2
  have p3 := (p2.trans (Cursor.skipText_passes h3)).trans hus3
  exact ⟨⟨_, p3⟩, by simpa using hb⟩

theorem mem_styleBraces {before : Option Char} {o : Nat} {cs : Text} {l : Cursor}
    (h : l ∈ styleBraces before o cs) :
    (∃ us, Cursor.Passes ⟨o, cs⟩ us l) ∧ l.rest.head? = some '\x7b' := by
  induction cs generalizing before o with
  | nil => simp [styleBraces] at h
  | cons c cs ih =>
    simp only [styleBraces, List.mem_append, Option.mem_toList] at h
    rcases h with h | h
    · split_ifs at h
      exact styleBrace?_spec h
    · obtain ⟨⟨us, hus⟩, hb⟩ := ih h
      exact ⟨⟨_, Markup.passes_cons hus⟩, hb⟩

/-! ### Entries -/

/-- Commas ahead of a point, one behind the other. -/
def CommasAhead (k : Cursor) : List Cursor → Prop
  | [] => True
  | l :: ls => (∃ us, k.Passes us l) ∧ l.rest.head? = some ',' ∧ CommasAhead (l.skip 1) ls

theorem CommasAhead.passes {k l : Cursor} {us : Text} {ls : List Cursor} (h : CommasAhead l ls)
    (hp : k.Passes us l) : CommasAhead k ls := by
  cases ls with
  | nil => trivial
  | cons m ls =>
    obtain ⟨⟨vs, hvs⟩, h⟩ := h
    exact ⟨⟨_, hp.trans hvs⟩, h⟩

theorem stringEnd_passes {q : Char} {o : Nat} {cs : Text} {k : Cursor}
    (h : stringEnd q o cs = some k) : ∃ us, Cursor.Passes ⟨o, cs⟩ us k := by
  fun_induction stringEnd q o cs with
  | case1 => cases h
  | case2 => cases h
  | case3 o c hc d cs ih =>
    obtain ⟨us, hus⟩ := ih h
    rw [beq_iff_eq] at hc
    subst hc
    exact ⟨_, Markup.passes_cons (Markup.passes_cons hus)⟩
  | case4 o c cs =>
    cases h
    exact ⟨[c], rfl, by simp⟩
  | case5 o c cs _ _ ih =>
    obtain ⟨us, hus⟩ := ih h
    exact ⟨_, Markup.passes_cons hus⟩

theorem commasAhead_topCommas (depth : Int) (fuel : Nat) (k : Cursor) :
    CommasAhead k (topCommas depth fuel k) := by
  induction fuel generalizing depth k with
  | zero => trivial
  | succ fuel ih =>
    obtain ⟨o, _ | ⟨c, cs⟩⟩ := k
    · trivial
    · have hnext : Cursor.Passes ⟨o, c :: cs⟩ [c] ⟨o + c.utf8Size, cs⟩ := ⟨rfl, by simp⟩
      simp only [topCommas]
      split_ifs with hq hb hc
      · split
        · next next hs =>
          obtain ⟨us, hus⟩ := stringEnd_passes hs
          exact (ih depth next).passes (hnext.trans hus)
        · trivial
      · split
        · next next hs =>
          obtain ⟨us, -, hus⟩ := Markup.templateEnd_eq_some.mp hs
          exact (ih depth next).passes (hnext.trans hus)
        · trivial
      · rw [Bool.and_eq_true, beq_iff_eq] at hc
        refine ⟨⟨[], .refl _⟩, by rw [hc.1]; rfl, ?_⟩
        exact ih depth ⟨o + c.utf8Size, cs⟩
      · exact (ih _ _).passes hnext

/-- A part of a text from a point on, between commas or the ends of the text. -/
def Part (k : Cursor) (p : Nat × Text) : Prop :=
  ∃ us rest, k.rest = us ++ p.2 ++ rest ∧ p.1 = k.offset + Text.size us ∧
    (∀ c ∈ us.getLast?, c = ',') ∧ ∀ c ∈ rest.head?, c = ','

theorem mem_between {k : Cursor} {ls : List Cursor} (h : CommasAhead k ls) {p : Nat × Text}
    (hp : p ∈ between k ls) : Part k p := by
  induction ls generalizing k with
  | nil =>
    rw [between] at hp
    split_ifs at hp
    · simp at hp
    · obtain rfl : p = (k.offset, k.rest) := by simpa using hp
      exact ⟨[], [], by simp, rfl, by simp, by simp⟩
  | cons l ls ih =>
    obtain ⟨⟨us, hus⟩, hc, hls⟩ := h
    obtain ⟨ds, hds⟩ := List.head?_eq_some_iff.mp hc
    rw [between] at hp
    rcases List.mem_cons.mp hp with rfl | hp
    · rw [hus.upTo_eq]
      exact ⟨[], l.rest, by simpa using hus.1, rfl, by simp, by rw [hds]; simp⟩
    · obtain ⟨vs, rest, hr, ho, hlast, hrest⟩ := ih hls hp
      have hskip := hus.trans (Cursor.skip_passes 1 l)
      refine ⟨us ++ l.rest.take 1 ++ vs, rest, ?_, ?_, ?_, hrest⟩
      · rw [hskip.1, hr]
        simp only [List.append_assoc]
      · rw [ho, hskip.2]
        simp only [Text.size_append, Nat.add_assoc]
      · rw [hds]
        intro c hc
        rcases List.eq_nil_or_concat vs with rfl | ⟨vs, v, rfl⟩
        · simpa using hc.symm
        · refine hlast c ?_
          rw [List.concat_eq_append] at hc ⊢
          simpa only [← List.append_assoc, List.getLast?_concat] using hc

/-- **Entries stand between commas.** -/
theorem mem_entries {body : Cursor} {p : Nat × Text} (hp : p ∈ entries body) : Part body p :=
  mem_between (commasAhead_topCommas _ _ _) hp

theorem splitKey_eq_some {quote : Option Char} {cs key value : Text}
    (h : splitKey quote cs = some (key, value)) : cs = key ++ ':' :: value := by
  induction cs generalizing quote key with
  | nil => cases h
  | cons c cs ih =>
    have hrest : ∀ {quote}, (splitKey quote cs).map (fun p => (c :: p.1, p.2)) = some (key, value) →
        c :: cs = key ++ ':' :: value := by
      intro quote hmap
      obtain ⟨⟨k, v⟩, hkv, heq⟩ := Option.map_eq_some_iff.mp hmap
      obtain ⟨rfl, rfl⟩ := Prod.mk.inj heq
      rw [ih hkv]
      rfl
    simp only [splitKey] at h
    split at h
    · split_ifs at h
      · exact hrest h
      · exact hrest h
    · split_ifs at h with h1 h2 h3
      · exact hrest h
      · rw [beq_iff_eq] at h2
        cases h
        rw [h2]
        rfl
      · exact hrest h

/-! ### Values -/

theorem ends_closer {d : Char} (h : d = '\x7d' ∨ d = Markup.backtick) (x : ValueContext) :
    x.ends d := by
  rcases h with rfl | rfl <;> exact ValueContext.ends_of_isBreak rfl (by decide)

theorem exists_quotes {raw : Text} (h : inlineContext? raw = some .inlineString) :
    ∃ c d, raw = c :: (inner raw ++ [d]) ∧ c.utf8Size = 1 ∧ d.utf8Size = 1 ∧ isBreak c ∧
      ∀ x : ValueContext, x.ends d := by
  cases raw with
  | nil => cases h
  | cons c cs =>
    have hlast : ∀ {d : Char}, cs.getLast? = some d → c :: cs = c :: (inner (c :: cs) ++ [d]) := by
      intro d hd
      rw [inner, List.tail_cons, List.dropLast_append_getLast? d hd]
    simp only [inlineContext?] at h
    split_ifs at h with hq ht
    · simp only [Bool.and_eq_true, Bool.or_eq_true, beq_iff_eq] at hq
      obtain ⟨⟨hc, hl⟩, -⟩ := hq
      have h1 : c.utf8Size = 1 := Markup.utf8Size_quote hc
      have hd : isBreak c := by rcases hc with rfl | rfl <;> rfl
      have hends : ∀ x : ValueContext, x.ends c := fun _ =>
        ValueContext.ends_of_isBreak hd (by rcases hc with rfl | rfl <;> decide)
      exact ⟨c, c, hlast hl, h1, h1, hd, hends⟩
    · cases h
    · rw [Bool.and_eq_true, beq_iff_eq, Option.any_eq_true] at ht
      obtain ⟨rfl, k, hk, hr⟩ := ht
      obtain ⟨us, hus, hp⟩ := Markup.templateEnd_eq_some.mp hk
      obtain ⟨vs, d, rfl, hd⟩ := hus.exists_last (by simp)
      rw [beq_iff_eq] at hr
      have hcs : cs = vs ++ [d] := by simpa [hr, Cursor.start] using hp.1
      refine ⟨_, d, hlast (by rw [hcs, List.getLast?_concat]), rfl, ?_, rfl, ?_⟩
      · rcases hd with rfl | rfl <;> rfl
      · exact ends_closer hd
    · cases h
    · cases h

theorem on_of_inlineSite? {cs raw property : Text} {start : Nat} {v : ValueSite} (as bs : Text)
    (hcs : cs = as ++ raw ++ bs) (hs : start = Text.size as) (ha : cs.LeftEdge start)
    (hb : ∀ x : ValueContext, cs.RightEdge x (start + Text.size raw))
    (h : inlineSite? property start raw = some v) :
    v.On cs ∧ v.Framed cs := by
  unfold inlineSite? at h
  simp only [Option.bind_eq_bind, Option.bind_eq_some_iff] at h
  obtain ⟨context, hctx, h⟩ := h
  have hread : context ≠ .className := by
    rintro rfl
    unfold inlineContext? at hctx
    split at hctx
    · cases hctx
    · simp only at hctx
      split_ifs at hctx <;> cases hctx
  have hread' : ∀ t, context.read t = t := by
    intro t
    cases context <;> first | rfl | exact absurd rfl hread
  split_ifs at h with hstr
  · rw [beq_iff_eq] at hstr
    subst hstr
    obtain ⟨c, d, hraw, hc, hd, hcd, hdd⟩ := exists_quotes hctx
    simp only [Option.pure_def, Option.some.injEq] at h
    generalize inner raw = w at hraw h
    subst h hs hraw hcs
    have hcs' : as ++ c :: (w ++ [d]) ++ bs = as ++ [c] ++ w ++ (d :: bs) := by simp
    have hspan : (⟨Text.size as + 1, Text.size as + Text.size (c :: (w ++ [d])) - 1⟩ : Span) =
        ⟨Text.size (as ++ [c]), Text.size (as ++ [c]) + Text.size w⟩ := by
      rw [Span.mk.injEq]
      simp only [Text.size_append, Text.size_cons, Text.size_nil, hc, hd, true_and]
      omega
    simp only [hcs', hspan]
    refine ⟨⟨Span.on_append _ _ _, ?_⟩, ?_, ?_⟩
    · simp only [ValueContext.read, Text.slice_append]
    · rw [List.append_assoc]
      refine .of_getLast? (fun e he => ?_) _
      obtain rfl : c = e := by simpa using he
      exact hcd
    · rw [← Text.size_append]
      refine .of_head? _ fun e he => ?_
      obtain rfl : d = e := by simpa using he
      exact hdd _
  · simp only [Option.pure_def, Option.some.injEq] at h
    subst h hs hcs
    refine ⟨⟨Span.on_append _ _ _, ?_⟩, ha, hb _⟩
    simp only [hread', Text.slice_append]

theorem on_of_entrySite? {watches : Text → Bool} {cs entry : Text} {offset : Nat} {v : ValueSite}
    (as bs : Text) (hcs : cs = as ++ entry ++ bs) (ho : offset = Text.size as)
    (hb : ∀ c ∈ bs.head?, ∀ x : ValueContext, x.ends c)
    (h : entrySite? watches offset entry = some v) :
    v.On cs ∧ v.Framed cs := by
  unfold entrySite? at h
  simp only [Option.bind_eq_bind, Option.bind_eq_some_iff] at h
  obtain ⟨⟨key, value⟩, hkey, _, -, _, -, _, -, h⟩ := h
  simp only at h
  obtain ⟨trail, htrail, hblank, -, -⟩ := Text.exists_trim value
  have hentry := splitKey_eq_some hkey
  have h1 : ':'.utf8Size = 1 := rfl
  have htext : cs = as ++ key ++ [':'] ++ value.takeWhile isBlank ++ Text.trim value ++
      (trail ++ bs) := by
    rw [hcs, hentry]
    conv => lhs; rw [htrail]
    simp only [List.append_assoc, List.cons_append, List.nil_append]
  have hsize : offset + Text.size key + 1 + Text.size (value.takeWhile isBlank) =
      Text.size (as ++ key ++ [':'] ++ value.takeWhile isBlank) := by
    simp only [ho, Text.size_append, Text.size_cons, Text.size_nil, h1]
  refine on_of_inlineSite? _ _ htext hsize ?_ (fun x => ?_) h
  · rw [hsize, htext, List.append_assoc _ (Text.trim value)]
    refine .of_blanks ⟨':', List.getLast?_concat, by decide⟩ (fun c hc => ?_) _
    exact List.mem_takeWhile_imp hc
  · rw [hsize, ← Text.size_append, htext]
    exact .of_blanks _ hblank fun c hc => hb c hc x

theorem on_of_mem_objectSites {watches : Text → Bool} {cs : Text} {brace : Cursor} {v : ValueSite}
    (hin : brace.In cs) (hb : brace.rest.head? = some '\x7b') (h : v ∈ objectSites watches brace) :
    v.On cs ∧ v.Framed cs := by
  unfold objectSites at h
  split at h
  · simp at h
  · next stop hstop =>
    obtain ⟨ds, hds⟩ := List.head?_eq_some_iff.mp hb
    obtain ⟨o, rest⟩ := brace
    simp only at hds
    subst hds
    obtain ⟨us, d, hd, rfl, ho⟩ := Markup.exists_inside hstop
    obtain ⟨before, hcs, hbefore⟩ := Cursor.in_iff.mp hin
    have h1 : '\x7b'.utf8Size = 1 := rfl
    have hbody : Text.takeBytes (stop.offset - 1 - (o + 1)) (us ++ d :: stop.rest) = us := by
      have hn : stop.offset - 1 - (o + 1) = Text.size us := by omega
      rw [hn, Text.takeBytes_size_append]
    simp only [Cursor.skip, h1, hbody] at h
    obtain ⟨⟨offset, entry⟩, hmem, hsite⟩ := List.mem_filterMap.mp h
    obtain ⟨vs, rest, hr, hoff, -, hcomma⟩ := mem_entries hmem
    simp only at hr hoff hcs hbefore hsite
    refine on_of_entrySite? (before ++ ['\x7b'] ++ vs) (rest ++ d :: stop.rest) ?_ ?_ ?_ hsite
    · rw [hcs, hr]
      simp
    · rw [hoff, hbefore]
      simp [h1, Nat.add_assoc]
    · intro c hc
      cases rest with
      | nil =>
        obtain rfl : d = c := by simpa using hc
        exact ends_closer hd
      | cons r rest =>
        obtain rfl : r = c := by simpa using hc
        rw [hcomma r rfl]
        exact fun _ => ValueContext.ends_of_isBreak rfl (by decide)

/-- **Values of style objects are on the text, and framed in it.** -/
theorem on_of_mem_inlineSites {watches : Text → Bool} {cs : Text} {v : ValueSite}
    (h : v ∈ inlineSites watches cs) : v.On cs ∧ v.Framed cs := by
  obtain ⟨brace, hmem, hv⟩ := List.mem_flatMap.mp h
  obtain ⟨hin, hb⟩ := mem_styleBraces hmem
  exact on_of_mem_objectSites hin hb hv

/-! ### Contexts -/

theorem exists_inlineContext? {watches : Text → Bool} {cs : Text} {v : ValueSite}
    (h : v ∈ inlineSites watches cs) : ∃ raw, inlineContext? raw = some v.context ∧
      (v.context ≠ .inlineString → v.value = raw) := by
  obtain ⟨brace, -, hv⟩ := List.mem_flatMap.mp h
  unfold objectSites at hv
  split at hv
  · simp at hv
  · obtain ⟨⟨offset, entry⟩, -, hsite⟩ := List.mem_filterMap.mp hv
    simp only [entrySite?, inlineSite?, Option.bind_eq_bind, Option.bind_eq_some_iff] at hsite
    obtain ⟨⟨key, value⟩, -, _, -, _, -, _, -, context, hctx, hsite⟩ := hsite
    split_ifs at hsite with hstr
    · cases hsite
      exact ⟨_, hctx, fun hne => absurd (beq_iff_eq.mp hstr) hne⟩
    · cases hsite
      exact ⟨_, hctx, fun _ => rfl⟩

/-- Only a string of a style object can be empty. -/
theorem value_ne_nil_of_mem_inlineSites {watches : Text → Bool} {cs : Text} {v : ValueSite}
    (h : v ∈ inlineSites watches cs) (hc : v.context ≠ .inlineString) : v.value ≠ [] := by
  obtain ⟨raw, hraw, hvalue⟩ := exists_inlineContext? h
  rw [hvalue hc]
  rintro rfl
  cases hraw

theorem inlineContext?_eq_some {raw : Text} {x : ValueContext} (h : inlineContext? raw = some x) :
    x ≠ .declaration ∧ x ≠ .className ∧ (x = .inlineTemplate → Text.has "$\x7b".toList raw) := by
  unfold inlineContext? at h
  split at h
  · cases h
  · simp only at h
    split_ifs at h with h1 h2 h3 <;> cases h <;> simp_all

end DesignLint.Style
