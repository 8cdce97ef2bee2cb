import DesignLint.Markup.Enclosure
import DesignLint.Proofs.Text.Place
import Mathlib.Data.List.Infix

/-!
# What stands in quotes and braces

`Quoted` says what may stand between the quotes of a string, and `closeQuote` finds it
(`closeQuote_eq_some`). What `scan` steps over falls into `Token`s: an escape, a string, a comment,
a quote, a brace, or a character that means nothing. Which token it is depends on what stands behind
it, since a quote without a partner on its line is ordinary text. `Enclosed stack us after` says
that `us`, in front of `after`, closes everything on the stack, and this is what `scan` finds
(`scan_eq_some`).

A text that is enclosed ends with a brace or a quote (`Enclosed.exists_last`), and it stays enclosed
when the text behind it is cut off (`Enclosed.cut`).
-/

namespace DesignLint.Markup

/-- What stands between the quotes of a string. -/
inductive Quoted (q : Char) : Text → Prop
  | nil : Quoted q []
  | escape (d : Char) {us : Text} : Quoted q us → Quoted q ('\\' :: d :: us)
  | cons {c : Char} {us : Text} :
    c ≠ '\\' → c ≠ '\n' → c ≠ q → Quoted q us → Quoted q (c :: us)

/-- What is read at once where a stack is open, in front of a text, and what is open behind it. -/
inductive Token (after : Text) : List Enclosure → Text → List Enclosure → Prop
  | escape {below} (d : Char) : Token after (.template :: below) ['\\', d] (.template :: below)
  | endTemplate {below} : Token after (.template :: below) [backtick] below
  | interpolation {below} :
    Token after (.template :: below) ['$', '\x7b'] (.brace :: .template :: below)
  | text {below} {c : Char} : c ≠ '\\' → c ≠ backtick → ¬ (c = '$' ∧ after.head? = some '\x7b') →
    Token after (.template :: below) [c] (.template :: below)
  | openBrace {top below} : top ≠ .template →
    Token after (top :: below) ['\x7b'] (.brace :: top :: below)
  | closeLast : Token after [.brace, .outside] ['\x7d'] []
  | closeBrace {below} : below ≠ [.outside] → Token after (.brace :: below) ['\x7d'] below
  | quoted {top below} {q : Char} {us : Text} : top ≠ .template → q = '"' ∨ q = '\'' →
    Quoted q us → Token after (top :: below) (q :: us ++ [q]) (top :: below)
  | loose {top below} {q : Char} : top ≠ .template → q = '"' ∨ q = '\'' →
    (∀ us, Quoted q us → ¬ us ++ [q] <+: after) → Token after (top :: below) [q] (top :: below)
  | startTemplate {top below} : top ≠ .template →
    Token after (top :: below) [backtick] (.template :: top :: below)
  | lineComment {top below} {us : Text} : top ≠ .template → '\n' ∉ us →
    (∀ c ∈ after.head?, c = '\n') → Token after (top :: below) ('/' :: '/' :: us) (top :: below)
  | blockComment {top below} {us : Text} : top ≠ .template → ¬ ['*', '/'] <:+: us ++ ['*'] →
    Token after (top :: below) ('/' :: '*' :: us ++ ['*', '/']) (top :: below)
  | plain {top below} {c : Char} : top ≠ .template →
    c ∉ ['\x7b', '\x7d', '"', '\'', backtick] → (c = '/' → ∀ d ∈ after.head?, d ≠ '/' ∧ d ≠ '*') →
    Token after (top :: below) [c] (top :: below)

/-- A text that, in front of another, closes everything that is open. -/
inductive Enclosed (after : Text) : List Enclosure → Text → Prop
  | done : Enclosed after [] []
  | token {stack stack' : List Enclosure} {us vs : Text} : Token (vs ++ after) stack us stack' →
    Enclosed after stack' vs → Enclosed after stack (us ++ vs)

/-! ### Quoted strings -/

theorem quoted_of_forall {q : Char} {us : Text}
    (h : ∀ c ∈ us, c ≠ '\\' ∧ c ≠ '\n' ∧ c ≠ q) : Quoted q us := by
  induction us with
  | nil => exact .nil
  | cons c us ih =>
    obtain ⟨hescape, hbreak, hquote⟩ := h c (by simp)
    exact .cons hescape hbreak hquote (ih fun d hd => h d (by simp [hd]))

theorem utf8Size_quote {q : Char} (hq : q = '"' ∨ q = '\'') : q.utf8Size = 1 := by
  rcases hq with rfl | rfl <;> rfl

theorem utf8Size_closer {c : Char} (hc : c = '\x7d' ∨ c = backtick) : c.utf8Size = 1 := by
  rcases hc with rfl | rfl <;> rfl

theorem passes_cons {c : Char} {o : Nat} {cs us : Text} {k : Cursor}
    (h : Cursor.Passes ⟨o + c.utf8Size, cs⟩ us k) : Cursor.Passes ⟨o, c :: cs⟩ (c :: us) k :=
  ⟨by simpa using h.1, by have := h.2; simp only [Text.size_cons] at this ⊢; omega⟩

theorem closeQuote_eq_some {q : Char} (hq : q = '"' ∨ q = '\'') {o : Nat} {cs : Text} {k : Cursor} :
    closeQuote q o cs = some k ↔ ∃ us, Quoted q us ∧ Cursor.Passes ⟨o, cs⟩ (us ++ [q]) k := by
  have hb : q ≠ '\\' := by rcases hq with rfl | rfl <;> decide
  have hn : q ≠ '\n' := by rcases hq with rfl | rfl <;> decide
  constructor
  · intro h
    fun_induction closeQuote q o cs with
    | case1 => cases h
    | case2 => cases h
    | case3 o c hc d cs ih =>
      obtain ⟨us, hus, hp⟩ := ih h
      rw [beq_iff_eq] at hc
      subst hc
      exact ⟨_, .escape d hus, passes_cons (passes_cons hp)⟩
    | case4 => cases h
    | case5 o c cs _ _ hc =>
      cases h
      rw [beq_iff_eq] at hc
      subst hc
      exact ⟨[], .nil, rfl, rfl⟩
    | case6 o c cs hb hn hc ih =>
      obtain ⟨us, hus, hp⟩ := ih h
      simp only [beq_iff_eq] at hb hn hc
      exact ⟨_, .cons hb hn hc hus, passes_cons hp⟩
  · rintro ⟨us, hus, hr, ho⟩
    obtain ⟨o', rest⟩ := k
    simp only at hr ho
    subst hr ho
    induction hus generalizing o with
    | nil =>
      unfold closeQuote
      simp [hb, hn]
    | escape d _ ih =>
      have h1 : '\\'.utf8Size = 1 := rfl
      unfold closeQuote
      simp only [List.cons_append, beq_self_eq_true, if_true]
      rw [ih]
      simp [h1, Nat.add_assoc]
    | cons hb' hn' hc' _ ih =>
      unfold closeQuote
      simp only [List.cons_append, beq_iff_eq, hb', hn', hc', if_false]
      rw [ih]
      simp [Nat.add_assoc]

theorem closeQuote_eq_none {q : Char} (hq : q = '"' ∨ q = '\'') {o : Nat} {cs : Text} :
    closeQuote q o cs = none ↔ ∀ us, Quoted q us → ¬ us ++ [q] <+: cs := by
  rw [Option.eq_none_iff_forall_ne_some]
  constructor
  · rintro h us hus ⟨rest, rfl⟩
    exact h ⟨_, rest⟩ ((closeQuote_eq_some hq).mpr ⟨us, hus, rfl, rfl⟩)
  · intro h k hk
    obtain ⟨us, hus, hp⟩ := (closeQuote_eq_some hq).mp hk
    exact h us hus ⟨k.rest, hp.1.symm⟩

/-! ### Comments -/

theorem exists_lineEnd (k : Cursor) : ∃ us, k.Passes us (lineEnd k) ∧ '\n' ∉ us ∧
    ∀ c ∈ (lineEnd k).rest.head?, c = '\n' := by
  obtain ⟨us, hp, hu, hv⟩ := Cursor.exists_skipWhile (· != '\n') k
  refine ⟨us, hp, fun h => ?_, fun c hc => ?_⟩
  · simpa using hu _ h
  · simpa using hv c hc

theorem lineEnd_eq {o : Nat} {us after : Text} (hn : '\n' ∉ us) (ha : ∀ c ∈ after.head?, c = '\n') :
    lineEnd ⟨o, us ++ after⟩ = ⟨o + Text.size us, after⟩ := by
  refine Cursor.skipWhile_append (fun c hc => ?_) (fun c hc => ?_) o
  · rw [bne_iff_ne]
    rintro rfl
    exact hn hc
  · simpa using ha c hc

theorem blockEnd_eq_some {k l : Cursor} :
    blockEnd k = some l ↔ ∃ us, k.Passes (us ++ ['*', '/']) l ∧ ¬ ['*', '/'] <:+: us ++ ['*'] := by
  rw [blockEnd, Option.map_eq_some_iff]
  constructor
  · rintro ⟨m, hm, rfl⟩
    obtain ⟨us, hu, ⟨rest, hr⟩, hmin⟩ := Cursor.find_eq_some.mp hm
    have hskip := Cursor.skip_passes 2 m
    rw [← hr] at hskip
    refine ⟨us, hu.trans hskip, ?_⟩
    rintro ⟨as, ds, h⟩
    rcases List.eq_nil_or_concat ds with rfl | ⟨ds, d, rfl⟩
    · have := congrArg List.getLast? h
      simp at this
    · rw [List.concat_eq_append, ← List.append_assoc] at h
      have hus := (List.append_inj' h rfl).1
      rw [List.append_assoc] at hus
      refine hmin as _ hus.symm (by simp) ?_
      simp
  · rintro ⟨us, ⟨hr, ho⟩, hno⟩
    refine ⟨⟨k.offset + Text.size us, '*' :: '/' :: l.rest⟩, ?_, ?_⟩
    · refine Cursor.find_eq_some.mpr ⟨us, ⟨by simpa using hr, rfl⟩, by simp, ?_⟩
      rintro as bs rfl hne ⟨rest, h⟩
      refine hno ⟨as, ?_⟩
      match bs, hne, h with
      | [b], _, h => simp at h
      | b :: b' :: bs, _, h =>
        simp only [List.cons_append, List.nil_append, List.cons.injEq] at h
        obtain ⟨rfl, rfl, -⟩ := h
        exact ⟨bs ++ ['*'], by simp⟩
    · obtain ⟨o, rest⟩ := l
      have h1 : '*'.utf8Size = 1 := rfl
      have h2 : '/'.utf8Size = 1 := rfl
      simp only [Cursor.skip, Text.size_append, Text.size_cons, Text.size_nil] at ho ⊢
      rw [ho]
      simp only [Nat.add_assoc, Nat.add_zero]

/-! ### One token -/

section

variable {top : Enclosure} {below : List Enclosure} {o : Nat} {c : Char} {cs : Text}

theorem scan_code (ht : top ≠ .template) (hc : c ≠ '/') :
    scan (top :: below) o (c :: cs) =
      if c = '\x7b' then scan (.brace :: top :: below) (o + 1) cs
      else if c = '\x7d' then
        if top = .outside then none
        else if below = [.outside] then some ⟨o + 1, cs⟩
        else scan below (o + 1) cs
      else if c = '"' ∨ c = '\'' then
        let k := (closeQuote c (o + 1) cs).getD ⟨o + 1, cs⟩
        scan (top :: below) k.offset k.rest
      else if c = backtick then scan (.template :: top :: below) (o + 1) cs
      else scan (top :: below) (o + c.utf8Size) cs := by
  have ht' : top = .template → False := ht
  rcases cs with _ | ⟨d, cs⟩
  · rw [scan.eq_7 o top below c [] ht' (by simp) (by simp)]
    simp only [beq_iff_eq, Bool.or_eq_true]
    split_ifs <;> rfl
  · by_cases h1 : d = '/'
    · subst h1
      rw [scan.eq_5 o top below c cs ht']
      simp only [beq_iff_eq, Bool.or_eq_true, hc, if_false]
      split_ifs <;> first | rfl | (split <;> simp [*])
    · by_cases h2 : d = '*'
      · subst h2
        rw [scan.eq_6 o top below c cs ht']
        simp only [beq_iff_eq, Bool.or_eq_true, hc, if_false]
        split_ifs <;> first | rfl | (split <;> simp [*])
      · rw [scan.eq_7 o top below c (d :: cs) ht' (by simp [h1]) (by simp [h2])]
        simp only [beq_iff_eq, Bool.or_eq_true]
        split_ifs <;> first | rfl | (split <;> simp [*])

theorem scan_lineComment (ht : top ≠ .template) :
    scan (top :: below) o ('/' :: '/' :: cs) =
      scan (top :: below) (lineEnd ⟨o + 2, cs⟩).offset (lineEnd ⟨o + 2, cs⟩).rest := by
  rw [scan.eq_5 o top below _ cs ht]
  simp [backtick]

theorem scan_blockComment (ht : top ≠ .template) :
    scan (top :: below) o ('/' :: '*' :: cs) =
      (blockEnd ⟨o + 2, cs⟩).bind fun k => scan (top :: below) k.offset k.rest := by
  rw [scan.eq_6 o top below _ cs ht]
  have : ¬ '/' = backtick := by decide
  simp only [beq_iff_eq, Char.reduceEq, if_false, Bool.or_eq_true, or_self, this, if_true]
  split
  · next h => rw [h, Option.bind_some]
  · next h => rw [h, Option.bind_none]

theorem scan_slash (ht : top ≠ .template) (h : ∀ d ∈ cs.head?, d ≠ '/' ∧ d ≠ '*') :
    scan (top :: below) o ('/' :: cs) = scan (top :: below) (o + 1) cs := by
  have h1 : '/'.utf8Size = 1 := rfl
  rw [scan.eq_7 o top below _ cs ht]
  · simp [backtick, h1]
  · rintro ds rfl
    simp at h
  · rintro ds rfl
    simp at h

theorem scan_escape (d : Char) :
    scan (.template :: below) o ('\\' :: d :: cs) =
      scan (.template :: below) (o + 1 + d.utf8Size) cs := by
  rw [scan.eq_4]
  simp

theorem scan_template (hc : c ≠ '\\') :
    scan (.template :: below) o (c :: cs) =
      if c = backtick then scan below (o + 1) cs
      else if c = '$' ∧ cs.head? = some '\x7b' then
        scan (.brace :: .template :: below) (o + 2) cs.tail
      else scan (.template :: below) (o + c.utf8Size) cs := by
  rcases cs with _ | ⟨d, cs⟩
  · rw [scan.eq_3]
    simp [hc]
  · rw [scan.eq_4]
    by_cases hd : d = '\x7b'
    · subst hd
      simp [hc]
    · simp [hc, hd]

end

theorem scan_token {after us : Text} {stack stack' : List Enclosure}
    (h : Token after stack us stack') (o : Nat) :
    scan stack o (us ++ after) = scan stack' (o + Text.size us) after := by
  cases h with
  | escape d =>
    have h1 : '\\'.utf8Size = 1 := rfl
    simp [scan_escape, h1, Nat.add_assoc]
  | endTemplate => simp [scan_template, backtick]; rfl
  | interpolation => simp [scan_template, backtick]; rfl
  | text hb ht hi =>
    simp only [List.cons_append, List.nil_append, scan_template hb, ht, hi, if_false]
    simp
  | openBrace ht => simp [scan_code ht]; rfl
  | closeLast => simp [scan_code, scan.eq_1]; rfl
  | closeBrace hb => simp [scan_code, hb]; rfl
  | @quoted top below q us ht hq hus =>
    have hc : closeQuote q (o + 1) (us ++ [q] ++ after) =
        some ⟨o + 1 + Text.size (us ++ [q]), after⟩ :=
      (closeQuote_eq_some hq).mpr ⟨us, hus, rfl, rfl⟩
    have h1 : q.utf8Size = 1 := utf8Size_quote hq
    have hs : q ≠ '/' ∧ q ≠ '\x7b' ∧ q ≠ '\x7d' := by rcases hq with rfl | rfl <;> decide
    rw [List.cons_append, List.cons_append, scan_code ht hs.1, if_neg hs.2.1, if_neg hs.2.2,
      if_pos hq, hc]
    simp [h1, Nat.add_assoc]
  | @loose top below q ht hq hno =>
    have hc : closeQuote q (o + 1) after = none := (closeQuote_eq_none hq).mpr hno
    have h1 : q.utf8Size = 1 := utf8Size_quote hq
    have hs : q ≠ '/' ∧ q ≠ '\x7b' ∧ q ≠ '\x7d' := by rcases hq with rfl | rfl <;> decide
    rw [List.cons_append, scan_code ht hs.1, if_neg hs.2.1, if_neg hs.2.2, if_pos hq,
      List.nil_append, hc]
    simp [h1]
  | startTemplate ht => simp [scan_code ht, backtick]; rfl
  | @lineComment top below us ht hn ha =>
    have h1 : '/'.utf8Size = 1 := rfl
    rw [List.cons_append, List.cons_append, scan_lineComment ht, lineEnd_eq hn ha]
    simp only [Text.size_cons, h1]
    congr 1
    omega
  | @blockComment top below us ht hno =>
    have hb : blockEnd ⟨o + 2, us ++ ['*', '/'] ++ after⟩ =
        some ⟨o + 2 + Text.size (us ++ ['*', '/']), after⟩ :=
      blockEnd_eq_some.mpr ⟨us, ⟨rfl, rfl⟩, hno⟩
    have h1 : '/'.utf8Size = 1 := rfl
    have h2 : '*'.utf8Size = 1 := rfl
    rw [List.cons_append, List.cons_append, List.cons_append, List.cons_append,
      scan_blockComment ht, hb, Option.bind_some]
    simp only [Text.size_cons, h1, h2]
    congr 1
    omega
  | @plain top below c ht hc hs =>
    simp only [List.mem_cons, List.not_mem_nil, or_false, not_or] at hc
    by_cases h : c = '/'
    · subst h
      have h1 : '/'.utf8Size = 1 := rfl
      rw [List.cons_append, List.nil_append, scan_slash ht (hs rfl)]
      simp [h1]
    · rw [List.cons_append, List.nil_append, scan_code ht h, if_neg hc.1, if_neg hc.2.1,
        if_neg (by tauto), if_neg hc.2.2.2.2]
      simp

/-! ### All tokens -/

theorem Enclosed.scan_eq {after us : Text} {stack : List Enclosure}
    (h : Enclosed after stack us) (o : Nat) :
    scan stack o (us ++ after) = some ⟨o + Text.size us, after⟩ := by
  induction h generalizing o with
  | done => rw [List.nil_append, scan.eq_1]; rfl
  | token ht _ ih => rw [List.append_assoc, scan_token ht, ih, Text.size_append, Nat.add_assoc]

/-- Reading one more token in front. -/
theorem exists_enclosed {ts : Text} {j k l : Cursor} {stack stack' : List Enclosure}
    (ht : Token l.rest stack ts stack') (hp : j.Passes ts l)
    (h : ∃ us, Enclosed k.rest stack' us ∧ l.Passes us k) :
    ∃ us, Enclosed k.rest stack us ∧ j.Passes us k := by
  obtain ⟨us, hus, hp'⟩ := h
  exact ⟨ts ++ us, .token (hp'.1 ▸ ht) hus, hp.trans hp'⟩

theorem exists_enclosed_of_scan {stack : List Enclosure} {o : Nat} {cs : Text} {k : Cursor}
    (h : scan stack o cs = some k) :
    ∃ us, Enclosed k.rest stack us ∧ Cursor.Passes ⟨o, cs⟩ us k := by
  fun_induction scan stack o cs with
  | case1 o cs =>
    cases h
    exact ⟨[], .done, .refl _⟩
  | case2 => cases h
  | case3 => cases h
  | case4 o below c hc d cs ih =>
    rw [beq_iff_eq] at hc
    subst hc
    exact exists_enclosed (.escape d) (passes_cons (Cursor.passes_one _ d _)) (ih h)
  | case5 o below c cs hb hc ih =>
    rw [beq_iff_eq] at hc
    subst hc
    exact exists_enclosed .endTemplate (Cursor.passes_one _ _ _) (ih h)
  | case6 o below c hb ht cs hc ih =>
    rw [beq_iff_eq] at hc
    subst hc
    exact exists_enclosed .interpolation (passes_cons (Cursor.passes_one _ _ _)) (ih h)
  | case7 o below c hb ht cs hc ih =>
    simp only [beq_iff_eq] at hb ht hc
    exact exists_enclosed (.text hb ht (by simp [hc])) (Cursor.passes_one o c _) (ih h)
  | case8 o below c hb ht cs hno ih =>
    simp only [beq_iff_eq] at hb ht
    refine exists_enclosed (.text hb ht ?_) (Cursor.passes_one o c _) (ih h)
    rintro ⟨-, hh⟩
    obtain ⟨ds, rfl⟩ := List.head?_eq_some_iff.mp hh
    exact hno ds rfl
  | case9 o top below c cs ht hc ih =>
    rw [beq_iff_eq] at hc
    subst hc
    exact exists_enclosed (.openBrace ht) (Cursor.passes_one _ _ _) (ih h)
  | case10 => cases h
  | case11 o top below c cs ht hb hc hto hbe =>
    cases h
    rw [beq_iff_eq] at hc hbe
    subst hc hbe
    cases top with
    | outside => simp at hto
    | template => exact absurd rfl ht
    | brace => exact ⟨_, .token .closeLast .done, rfl, rfl⟩
  | case12 o top below c cs ht hb hc hto hbe ih =>
    simp only [beq_iff_eq] at hc hbe
    subst hc
    cases top with
    | outside => simp at hto
    | template => exact absurd rfl ht
    | brace => exact exists_enclosed (.closeBrace hbe) (Cursor.passes_one _ _ _) (ih h)
  | case13 o top below c cs ht _ _ hc l hq ih =>
    simp only [Bool.or_eq_true, beq_iff_eq] at hc
    obtain ⟨us, hus, hp⟩ := (closeQuote_eq_some hc).mp hq
    rw [← utf8Size_quote hc] at hp
    exact exists_enclosed (.quoted ht hc hus) (passes_cons hp) (ih h)
  | case14 o top below c cs ht _ _ hc hq ih =>
    simp only [Bool.or_eq_true, beq_iff_eq] at hc
    rw [← utf8Size_quote hc] at hq ih h
    exact exists_enclosed (.loose ht hc ((closeQuote_eq_none hc).mp hq)) (Cursor.passes_one o c _)
      (ih h)
  | case15 o top below c cs ht _ _ _ hc ih =>
    rw [beq_iff_eq] at hc
    subst hc
    exact exists_enclosed (.startTemplate ht) (Cursor.passes_one _ _ _) (ih h)
  | case16 o top below c ht _ _ _ _ cs hc l ih =>
    rw [beq_iff_eq] at hc
    subst hc
    obtain ⟨us, hp, hn, ha⟩ := exists_lineEnd ⟨o + 2, cs⟩
    exact exists_enclosed (.lineComment ht hn ha) (passes_cons (passes_cons hp)) (ih h)
  | case17 o top below c ht hb hb' hq ht' cs hc ih =>
    simp only [beq_iff_eq, Bool.or_eq_true, not_or] at hb hb' hq ht' hc
    exact exists_enclosed (.plain ht (by simp [*]) fun h => absurd h hc) (Cursor.passes_one o c _)
      (ih h)
  | case18 o top below c ht _ _ _ _ cs hc l hbl ih =>
    rw [beq_iff_eq] at hc
    subst hc
    obtain ⟨us, hp, hno⟩ := blockEnd_eq_some.mp hbl
    exact exists_enclosed (.blockComment ht hno) (passes_cons (passes_cons hp)) (ih h)
  | case19 => cases h
  | case20 o top below c ht hb hb' hq ht' cs hc ih =>
    simp only [beq_iff_eq, Bool.or_eq_true, not_or] at hb hb' hq ht' hc
    exact exists_enclosed (.plain ht (by simp [*]) fun h => absurd h hc) (Cursor.passes_one o c _)
      (ih h)
  | case21 o top below c ht hb hb' hq ht' cs hs hs' ih =>
    simp only [beq_iff_eq, Bool.or_eq_true, not_or] at hb hb' hq ht'
    refine exists_enclosed (.plain ht (by simp [*]) fun _ d hd => ?_) (Cursor.passes_one o c _)
      (ih h)
    obtain ⟨ds, rfl⟩ := List.head?_eq_some_iff.mp hd
    exact ⟨fun he => hs ds (by rw [he]), fun he => hs' ds (by rw [he])⟩

/-- **`scan` finds what is enclosed.** -/
theorem scan_eq_some {stack : List Enclosure} {o : Nat} {cs : Text} {k : Cursor} :
    scan stack o cs = some k ↔ ∃ us, Enclosed k.rest stack us ∧ Cursor.Passes ⟨o, cs⟩ us k := by
  refine ⟨exists_enclosed_of_scan, ?_⟩
  rintro ⟨us, hus, hr, ho⟩
  obtain ⟨o', rest⟩ := k
  simp only at hr ho hus
  subst hr ho
  exact hus.scan_eq o

theorem Enclosed.exists_last {after us : Text} {stack : List Enclosure} (h : Enclosed after stack us)
    (hs : stack ≠ []) : ∃ vs c, us = vs ++ [c] ∧ (c = '\x7d' ∨ c = backtick) := by
  induction h with
  | done => exact absurd rfl hs
  | @token stack stack' us vs ht hvs ih =>
    by_cases hs' : stack' = []
    · subst hs'
      cases hvs with
      | token hv => cases hv
      | done =>
        cases ht with
        | endTemplate => exact ⟨[], _, rfl, Or.inr rfl⟩
        | closeLast => exact ⟨[], _, rfl, Or.inl rfl⟩
        | closeBrace => exact ⟨[], _, rfl, Or.inl rfl⟩
    · obtain ⟨ws, c, rfl, hc⟩ := ih hs'
      exact ⟨us ++ ws, c, by simp, hc⟩

/-! ### Cutting off what stands behind -/

theorem Token.cut {after ds us : Text} {stack stack' : List Enclosure}
    (h : Token (after ++ ds) stack us stack') : Token after stack us stack' := by
  have hhead : ∀ d ∈ after.head?, d ∈ (after ++ ds).head? := by
    intro d hd
    obtain ⟨as, rfl⟩ := List.head?_eq_some_iff.mp hd
    rfl
  cases h with
  | escape d => exact .escape d
  | endTemplate => exact .endTemplate
  | interpolation => exact .interpolation
  | text hb ht hi => exact .text hb ht fun h => hi ⟨h.1, hhead _ h.2⟩
  | openBrace ht => exact .openBrace ht
  | closeLast => exact .closeLast
  | closeBrace hb => exact .closeBrace hb
  | quoted ht hq hus => exact .quoted ht hq hus
  | loose ht hq hno =>
    exact .loose ht hq fun us hus hp => hno us hus (hp.trans (List.prefix_append _ _))
  | startTemplate ht => exact .startTemplate ht
  | lineComment ht hn ha => exact .lineComment ht hn fun c hc => ha c (hhead c hc)
  | blockComment ht hno => exact .blockComment ht hno
  | plain ht hc hs => exact .plain ht hc fun h d hd => hs h d (hhead d hd)

/-- Whatever stands behind, what is enclosed is so in front of less. -/
theorem Enclosed.cut {after ds us : Text} {stack : List Enclosure}
    (h : Enclosed (after ++ ds) stack us) : Enclosed after stack us := by
  generalize hrest : after ++ ds = rest at h
  induction h with
  | done => exact .done
  | token ht _ ih =>
    subst hrest
    rw [← List.append_assoc] at ht
    exact .token ht.cut ih

/-! ### Expressions and template literals -/

theorem expressionEnd_eq_some {k l : Cursor} :
    expressionEnd k = some l ↔ ∃ us, Enclosed l.rest [.outside] us ∧ k.Passes us l := scan_eq_some

theorem templateEnd_eq_some {k l : Cursor} :
    templateEnd k = some l ↔ ∃ us, Enclosed l.rest [.template] us ∧ k.Passes us l := scan_eq_some

theorem expressionEnd_cons {o : Nat} {cs : Text} {l : Cursor} :
    expressionEnd ⟨o, '\x7b' :: cs⟩ = some l ↔
      ∃ e, Enclosed l.rest [.outside] ('\x7b' :: e) ∧
        Cursor.Passes ⟨o, '\x7b' :: cs⟩ ('\x7b' :: e) l := by
  rw [expressionEnd_eq_some]
  constructor
  · rintro ⟨us, hus, hp⟩
    obtain ⟨vs, c, hvc, -⟩ := hus.exists_last (by simp)
    cases us with
    | nil => simp at hvc
    | cons d e =>
      have := hp.1
      simp only [List.cons_append, List.cons.injEq] at this
      obtain ⟨rfl, -⟩ := this
      exact ⟨e, hus, hp⟩
  · rintro ⟨e, he, hp⟩
    exact ⟨_, he, hp⟩

/-- What stands in braces that open at a point, between the first of them and the character that
closes them. -/
theorem exists_inside {o : Nat} {cs : Text} {l : Cursor}
    (h : expressionEnd ⟨o, '\x7b' :: cs⟩ = some l) : ∃ us c, (c = '\x7d' ∨ c = backtick) ∧
      cs = us ++ c :: l.rest ∧ l.offset = o + 1 + Text.size us + 1 := by
  obtain ⟨e, he, hp⟩ := expressionEnd_cons.mp h
  obtain ⟨vs, c, hvc, hc⟩ := he.exists_last (by simp)
  have h1 : c.utf8Size = 1 := utf8Size_closer hc
  have h2 : '\x7b'.utf8Size = 1 := rfl
  cases vs with
  | nil =>
    obtain ⟨rfl, -⟩ := List.cons.inj hvc
    exact absurd hc (by decide)
  | cons v us =>
    rw [List.cons_append, List.cons.injEq] at hvc
    obtain ⟨rfl, rfl⟩ := hvc
    refine ⟨us, c, hc, by simpa using hp.1, ?_⟩
    rw [hp.2]
    simp only [Text.size_cons, Text.size_append, Text.size_nil, h1, h2]
    omega

end DesignLint.Markup
