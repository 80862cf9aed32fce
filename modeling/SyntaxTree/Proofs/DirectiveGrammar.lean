/-
# The grammar of line directives

`LineDirective.parse?` scans a directive once from the left.  This file gives the grammar it
stands for, as the parts that a directive is put together from (`Directs`), and shows that a text
is read exactly if it has these parts, as the line number and the quoted text that they say
(`parse?_eq_some_iff`).

Scanning takes each part as long as it can.  That this loses no directive rests on where the parts
meet: no blank is a digit, in any script (`isDecimalDigit_of_isBlank`), and neither of them is a
quote.  So behind the line number there is a blank or the end (`startsBlank_append`), and whether
a quote is the first thing behind the blanks decides whether there is a file name.  The scanner of
the trailing numbers keeps what it has just seen; `Ahead` says what each state still accepts, and
one character leads from state to state (`ahead_of_isTail`).
-/
import Mathlib.Data.List.TakeWhile
import SyntaxTree.LineDirective

namespace SyntaxTree

/-! ## 1. Characters -/

/-- Sets of code points whose ranges do not meet have no character in common. -/
theorem CodePointSet.not_contains_of_disjoint {set other : CodePointSet}
    (h : ∀ range ∈ set.ranges, ∀ foreign ∈ other.ranges,
      range.2 < foreign.1 ∨ foreign.2 < range.1)
    {c : Char} (hc : set.contains c = true) : other.contains c = false := by
  obtain ⟨range, hrange, hin⟩ := List.any_eq_true.1 hc
  simp only [Bool.and_eq_true, decide_eq_true_eq] at hin
  refine List.any_eq_false.2 ?_
  intro foreign hforeign hinside
  simp only [Bool.and_eq_true, decide_eq_true_eq] at hinside
  have hapart := h range hrange foreign hforeign
  omega

/-- **No blank is a digit of any script.** -/
theorem isDecimalDigit_of_isBlank {c : Char} (h : isBlank c = true) : isDecimalDigit c = false :=
  CodePointSet.not_contains_of_disjoint (by decide +kernel) h

theorem isBlank_of_isDecimalDigit {c : Char} (h : isDecimalDigit c = true) : isBlank c = false := by
  cases hblank : isBlank c with
  | false => rfl
  | true => exact absurd h (by simp [isDecimalDigit_of_isBlank hblank])

theorem isDecimalDigit_of_isDigit {c : Char} (h : Decimal.isDigit c = true) :
    isDecimalDigit c = true := by
  simp only [Decimal.isDigit, Bool.and_eq_true, decide_eq_true_eq] at h
  refine List.any_eq_true.2 ⟨(0x30, 0x39), by decide, ?_⟩
  have hlow : '0'.toNat ≤ c.toNat := h.1
  have hhigh : c.toNat ≤ '9'.toNat := h.2
  simp only [Bool.and_eq_true, decide_eq_true_eq]
  exact ⟨hlow, hhigh⟩

namespace LineDirective

/-! ## 2. The grammar -/

/-- Any number of blanks. -/
def Blanks (cs : List Char) : Prop := ∀ c ∈ cs, isBlank c = true

/-- Any number of digits of any scripts. -/
def Digits (cs : List Char) : Prop := ∀ c ∈ cs, isDecimalDigit c = true

/-- What may stand between quotes: characters other than a quote and a backslash, and pairs of a
backslash and any character but a line feed. -/
inductive Body : List Char → Prop where
  | nil : Body []
  | plain {c : Char} {rest : List Char} (hquote : c ≠ '"') (hslash : c ≠ '\\')
      (hrest : Body rest) : Body (c :: rest)
  | pair {c : Char} {rest : List Char} (hfeed : c ≠ '\n') (hrest : Body rest) :
      Body ('\\' :: c :: rest)

/-- Nothing, or at least one blank and a text between quotes. -/
inductive Named : Option (List Char) → List Char → Prop where
  | absent : Named none []
  | quoted {blanks body : List Char} (hne : blanks ≠ []) (hblanks : Blanks blanks)
      (hbody : Body body) : Named (some body) (blanks ++ '"' :: (body ++ ['"']))

/-- Any number of runs of digits, each behind at least one blank. -/
inductive Flags : List Char → Prop where
  | nil : Flags []
  | cons {blanks digits rest : List Char} (hne : blanks ≠ []) (hblanks : Blanks blanks)
      (hsome : digits ≠ []) (hdigits : Digits digits) (hrest : Flags rest) :
      Flags (blanks ++ (digits ++ rest))

/-- The parts of a directive: blanks, ASCII digits for a line number of 32 bits, possibly a
quoted text, possibly more numbers, and blanks. -/
inductive Directs (line : Nat) (quoted : Option (List Char)) : List Char → Prop where
  | parts {front digits named flags back : List Char} (hfront : Blanks front)
      (hsome : digits ≠ []) (hdigits : ∀ c ∈ digits, Decimal.isDigit c = true)
      (hline : Decimal.value digits = line) (hsmall : line < UInt32.size)
      (hnamed : Named quoted named) (hflags : Flags flags) (hback : Blanks back) :
      Directs line quoted (front ++ (digits ++ (named ++ (flags ++ back))))

theorem Directs.lt_size {line : Nat} {quoted : Option (List Char)} {text : List Char}
    (h : Directs line quoted text) : line < UInt32.size := by
  obtain ⟨-, -, -, -, hsmall, -, -, -⟩ := h
  exact hsmall

/-! ## 3. Between quotes -/

/-- **Scanning finds the quote that ends the text.** -/
theorem scanQuoted_of_body {body : List Char} (h : Body body) (rest : List Char) :
    scanQuoted (body ++ '"' :: rest) = some (body, rest) := by
  induction h with
  | nil => rfl
  | @plain c body hquote hslash _ ih =>
    rw [List.cons_append, scanQuoted, ih]
    · rfl
    · exact hquote
    · rintro rfl
      exact absurd rfl hslash
    · rintro c rest rfl
      exact absurd rfl hslash
  | pair hfeed _ ih =>
    rw [List.cons_append, List.cons_append, scanQuoted, if_neg hfeed, ih]
    rfl

theorem body_of_scanQuoted {cs body rest : List Char} (h : scanQuoted cs = some (body, rest)) :
    Body body ∧ cs = body ++ '"' :: rest := by
  fun_induction scanQuoted cs generalizing body with
  | case1 => cases h
  | case2 tail =>
    obtain ⟨rfl, rfl⟩ := Prod.mk.inj (Option.some.inj h)
    exact ⟨.nil, rfl⟩
  | case3 => cases h
  | case4 tail => cases h
  | case5 c tail hfeed ih =>
    obtain ⟨⟨inner, after⟩, hscan, hpair⟩ := Option.map_eq_some_iff.1 h
    obtain ⟨rfl, rfl⟩ := Prod.mk.inj hpair
    obtain ⟨hbody, rfl⟩ := ih hscan
    exact ⟨.pair hfeed hbody, rfl⟩
  | case6 c tail hquote hlone hslash ih =>
    obtain ⟨⟨inner, after⟩, hscan, hpair⟩ := Option.map_eq_some_iff.1 h
    obtain ⟨rfl, rfl⟩ := Prod.mk.inj hpair
    obtain ⟨hbody, rfl⟩ := ih hscan
    refine ⟨.plain hquote ?_ hbody, rfl⟩
    -- a backslash here would be the end of the text or start a pair
    rintro rfl
    cases inner with
    | nil => exact hslash _ _ rfl rfl
    | cons next _ => exact hslash next _ rfl rfl

/-! ## 4. Trailing numbers -/

/-- What may follow the line number and the file name. -/
def Trailing (cs : List Char) : Prop :=
  ∃ flags back : List Char, Flags flags ∧ Blanks back ∧ cs = flags ++ back

theorem Trailing.nil : Trailing [] := ⟨[], [], .nil, List.forall_mem_nil _, rfl⟩

/-- One more blank in front makes no difference. -/
theorem Trailing.blank {c : Char} {rest : List Char} (hc : isBlank c = true)
    (h : Trailing rest) : Trailing (c :: rest) := by
  obtain ⟨flags, back, hflags, hback, rfl⟩ := h
  cases hflags with
  | nil => exact ⟨[], c :: back, .nil, List.forall_mem_cons.2 ⟨hc, hback⟩, rfl⟩
  | @cons blanks digits more hne hblanks hsome hdigits hmore =>
    exact ⟨(c :: blanks) ++ (digits ++ more), back,
      .cons (List.cons_ne_nil c blanks) (List.forall_mem_cons.2 ⟨hc, hblanks⟩) hsome hdigits hmore,
      hback, rfl⟩

theorem Trailing.flag {blanks digits rest : List Char} (hne : blanks ≠ []) (hblanks : Blanks blanks)
    (hsome : digits ≠ []) (hdigits : Digits digits) (h : Trailing rest) :
    Trailing (blanks ++ (digits ++ rest)) := by
  obtain ⟨flags, back, hflags, hback, rfl⟩ := h
  refine ⟨blanks ++ (digits ++ flags), back, .cons hne hblanks hsome hdigits hflags, hback, ?_⟩
  simp only [List.append_assoc]

/-- What the scanner accepts from each state on: behind a digit the number may go on, and behind a
blank there may be more blanks and then a number. -/
def Ahead : Tail → List Char → Prop
  | .closed, cs => Trailing cs
  | .number, cs => ∃ digits rest : List Char, Digits digits ∧ Trailing rest ∧ cs = digits ++ rest
  | .blank, cs => ∃ blanks digits rest : List Char,
      Blanks blanks ∧ Digits digits ∧ Trailing rest ∧ cs = blanks ++ (digits ++ rest)

/-- A blank in front of what may follow a blank is what may follow anything. -/
theorem trailing_of_ahead_blank {c : Char} {rest : List Char} (hc : isBlank c = true)
    (h : Ahead .blank rest) : Trailing (c :: rest) := by
  obtain ⟨blanks, digits, more, hblanks, hdigits, hmore, rfl⟩ := h
  by_cases hsome : digits = []
  · subst hsome
    refine Trailing.blank hc ?_
    induction blanks with
    | nil => exact hmore
    | cons b blanks ih =>
      obtain ⟨hb, hblanks⟩ := List.forall_mem_cons.1 hblanks
      exact Trailing.blank hb (ih hblanks)
  · exact Trailing.flag (List.cons_ne_nil c blanks) (List.forall_mem_cons.2 ⟨hc, hblanks⟩) hsome
      hdigits hmore

/-- **What the scanner accepts has the parts.**  One character leads from what a state accepts to
what the next one does. -/
theorem ahead_of_isTail {seen : Tail} {cs : List Char} (h : isTail seen cs = true) :
    Ahead seen cs := by
  induction cs generalizing seen with
  | nil =>
    cases seen with
    | closed => exact Trailing.nil
    | number => exact ⟨[], [], List.forall_mem_nil _, Trailing.nil, rfl⟩
    | blank => exact ⟨[], [], [], List.forall_mem_nil _, List.forall_mem_nil _, Trailing.nil, rfl⟩
  | cons c rest ih =>
    rw [isTail] at h
    split at h
    · next hblank =>
      have hrest := trailing_of_ahead_blank hblank (ih h)
      cases seen with
      | closed => exact hrest
      | number => exact ⟨[], c :: rest, List.forall_mem_nil _, hrest, rfl⟩
      | blank =>
        exact ⟨[], [], c :: rest, List.forall_mem_nil _, List.forall_mem_nil _, hrest, rfl⟩
    · split at h
      · next hdigit =>
        obtain ⟨hdigit, hopen⟩ := Bool.and_eq_true_iff.1 hdigit
        obtain ⟨digits, more, hdigits, hmore, rfl⟩ := ih h
        have hrun : Digits (c :: digits) := List.forall_mem_cons.2 ⟨hdigit, hdigits⟩
        cases seen with
        | closed => cases hopen
        | number => exact ⟨c :: digits, more, hrun, hmore, rfl⟩
        | blank => exact ⟨[], c :: digits, more, List.forall_mem_nil _, hrun, hmore, rfl⟩
      · cases h

theorem isTail_blanks {blanks : List Char} (hne : blanks ≠ []) (hblanks : Blanks blanks)
    (seen : Tail) (rest : List Char) : isTail seen (blanks ++ rest) = isTail .blank rest := by
  induction blanks generalizing seen with
  | nil => exact absurd rfl hne
  | cons c blanks ih =>
    obtain ⟨hc, hblanks⟩ := List.forall_mem_cons.1 hblanks
    rw [List.cons_append, isTail, if_pos hc]
    by_cases hlast : blanks = []
    · rw [hlast, List.nil_append]
    · exact ih hlast hblanks .blank

theorem isTail_digits {digits : List Char} (hsome : digits ≠ []) (hdigits : Digits digits)
    {seen : Tail} (hopen : (seen != .closed) = true) (rest : List Char) :
    isTail seen (digits ++ rest) = isTail .number rest := by
  induction digits generalizing seen with
  | nil => exact absurd rfl hsome
  | cons c digits ih =>
    obtain ⟨hc, hdigits⟩ := List.forall_mem_cons.1 hdigits
    have hblank : ¬ isBlank c = true := by simp [isBlank_of_isDecimalDigit hc]
    rw [List.cons_append, isTail, if_neg hblank, if_pos (by rw [hc, hopen]; rfl)]
    by_cases hlast : digits = []
    · rw [hlast, List.nil_append]
    · exact ih hlast hdigits rfl

/-- **What has the parts is accepted**, whatever was seen before. -/
theorem isTail_of_trailing {cs : List Char} (h : Trailing cs) (seen : Tail) :
    isTail seen cs = true := by
  obtain ⟨flags, back, hflags, hback, rfl⟩ := h
  induction hflags generalizing seen with
  | nil =>
    rw [List.nil_append]
    by_cases hnone : back = []
    · rw [hnone, isTail]
    · have hend := isTail_blanks hnone hback seen []
      rwa [List.append_nil] at hend
  | cons hne hblanks hsome hdigits _ ih =>
    rw [List.append_assoc, List.append_assoc, isTail_blanks hne hblanks,
      isTail_digits hsome hdigits rfl]
    exact ih .number

theorem isTail_closed_iff {cs : List Char} : isTail .closed cs = true ↔ Trailing cs :=
  ⟨ahead_of_isTail, fun h => isTail_of_trailing h .closed⟩

/-! ## 5. Where the parts meet -/

/-- A text that is empty or has a blank in front. -/
def StartsBlank (cs : List Char) : Prop := ∀ c ∈ cs.head?, isBlank c = true

theorem startsBlank_blanks {blanks : List Char} (hne : blanks ≠ []) (hblanks : Blanks blanks)
    (rest : List Char) : StartsBlank (blanks ++ rest) := by
  obtain ⟨b, blanks, rfl⟩ := List.exists_cons_of_ne_nil hne
  intro c hc
  obtain rfl := Option.some.inj hc
  exact hblanks b List.mem_cons_self

theorem Trailing.startsBlank {cs : List Char} (h : Trailing cs) : StartsBlank cs := by
  obtain ⟨flags, back, hflags, hback, rfl⟩ := h
  cases hflags with
  | nil => exact fun c hc => hback c (List.mem_of_mem_head? hc)
  | cons hne hblanks _ _ _ =>
    rw [List.append_assoc]
    exact startsBlank_blanks hne hblanks _

/-- **Behind the line number there is a blank, or nothing.** -/
theorem startsBlank_append {quoted : Option (List Char)} {named rest : List Char}
    (hnamed : Named quoted named) (hrest : Trailing rest) : StartsBlank (named ++ rest) := by
  cases hnamed with
  | absent => exact hrest.startsBlank
  | quoted hne hblanks _ =>
    rw [List.append_assoc]
    exact startsBlank_blanks hne hblanks _

/-- Blanks are dropped up to anything else. -/
theorem dropBlanks_append {blanks : List Char} (h : Blanks blanks) {c : Char}
    (hc : isBlank c = false) (rest : List Char) :
    dropBlanks (blanks ++ c :: rest) = c :: rest := by
  rw [dropBlanks, List.dropWhile_append_of_pos h, List.dropWhile_cons_of_neg (by simp [hc])]

/-- Digits are taken up to a blank or the end. -/
theorem takeWhile_digits {digits rest : List Char} (h : Digits digits) (hrest : StartsBlank rest) :
    (digits ++ rest).takeWhile isDecimalDigit = digits
      ∧ (digits ++ rest).dropWhile isDecimalDigit = rest := by
  rw [List.takeWhile_append_of_pos h, List.dropWhile_append_of_pos h]
  cases rest with
  | nil => exact ⟨List.append_nil digits, rfl⟩
  | cons c rest =>
    have hc : ¬ isDecimalDigit c = true := by
      simp [isDecimalDigit_of_isBlank (hrest c rfl)]
    rw [List.takeWhile_cons_of_neg hc, List.dropWhile_cons_of_neg hc, List.append_nil]
    exact ⟨rfl, rfl⟩

/-- Among trailing numbers there is no quote. -/
theorem dropBlanks_ne_quote {cs : List Char} (h : Trailing cs) (rest : List Char) :
    dropBlanks cs ≠ '"' :: rest := by
  obtain ⟨flags, back, hflags, hback, rfl⟩ := h
  intro hquote
  cases hflags with
  | nil =>
    rw [List.nil_append, dropBlanks, List.dropWhile_eq_nil_iff.2 hback] at hquote
    cases hquote
  | @cons blanks digits more hne hblanks hsome hdigits _ =>
    obtain ⟨d, digits, rfl⟩ := List.exists_cons_of_ne_nil hsome
    have hd := hdigits d List.mem_cons_self
    rw [List.append_assoc, List.append_assoc, List.cons_append,
      dropBlanks_append hblanks (isBlank_of_isDecimalDigit hd)] at hquote
    obtain ⟨rfl, -⟩ := List.cons.inj hquote
    exact absurd hd (by decide +kernel)

/-! ## 6. The file name -/

theorem splitQuoted_of_quote {first : Char} {rest after : List Char} (hfirst : isBlank first = true)
    (hquote : dropBlanks (first :: rest) = '"' :: after) :
    splitQuoted (first :: rest) = (scanQuoted after).map fun (body, rest) => (some body, rest) := by
  simp only [splitQuoted, hfirst, hquote]

theorem splitQuoted_of_ne {cs : List Char} (h : ∀ after : List Char, dropBlanks cs ≠ '"' :: after) :
    splitQuoted cs = some (none, cs) := by
  unfold splitQuoted
  split
  · rfl
  · split
    · next _ after _ hquote => exact absurd hquote (h after)
    · rfl

theorem splitQuoted_of_named {quoted : Option (List Char)} {named rest : List Char}
    (hnamed : Named quoted named) (hrest : Trailing rest) :
    splitQuoted (named ++ rest) = some (quoted, rest) := by
  cases hnamed with
  | absent => exact splitQuoted_of_ne (dropBlanks_ne_quote hrest)
  | @quoted blanks body hne hblanks hbody =>
    have hdrop : dropBlanks (blanks ++ '"' :: (body ++ '"' :: rest))
        = '"' :: (body ++ '"' :: rest) :=
      dropBlanks_append hblanks (by decide +kernel) _
    obtain ⟨b, blanks, rfl⟩ := List.exists_cons_of_ne_nil hne
    have hsplit := splitQuoted_of_quote (hblanks b List.mem_cons_self) hdrop
    rw [scanQuoted_of_body hbody] at hsplit
    simpa using hsplit

/-- **What is split off in front is a file name, or nothing.** -/
theorem named_of_splitQuoted {cs rest : List Char} {quoted : Option (List Char)}
    (h : splitQuoted cs = some (quoted, rest)) :
    ∃ named : List Char, Named quoted named ∧ cs = named ++ rest := by
  unfold splitQuoted at h
  split at h
  · obtain ⟨rfl, rfl⟩ := Prod.mk.inj (Option.some.inj h)
    exact ⟨[], .absent, rfl⟩
  · next first tail =>
    split at h
    · next after hfirst hquote =>
      obtain ⟨⟨body, behind⟩, hscan, hpair⟩ := Option.map_eq_some_iff.1 h
      obtain ⟨rfl, rfl⟩ := Prod.mk.inj hpair
      obtain ⟨hbody, rfl⟩ := body_of_scanQuoted hscan
      refine ⟨(first :: tail).takeWhile isBlank ++ '"' :: (body ++ ['"']), .quoted ?_ ?_ hbody, ?_⟩
      · rw [List.takeWhile_cons_of_pos hfirst]
        exact List.cons_ne_nil _ _
      · exact fun c hc => List.mem_takeWhile_imp hc
      · calc first :: tail
            = (first :: tail).takeWhile isBlank ++ dropBlanks (first :: tail) :=
              List.takeWhile_append_dropWhile.symm
          _ = _ := by
            rw [hquote]
            simp only [List.append_assoc, List.cons_append, List.nil_append]
    · obtain ⟨rfl, rfl⟩ := Prod.mk.inj (Option.some.inj h)
      exact ⟨[], .absent, rfl⟩

/-! ## 7. Whole directives -/

theorem lineNumber?_eq_some_iff {digits : List Char} {line : UInt32} :
    lineNumber? digits = some line
      ↔ (∀ c ∈ digits, Decimal.isDigit c = true) ∧ Decimal.value digits = line.toNat := by
  unfold lineNumber?
  split
  · next hread =>
    obtain ⟨hdigits, hsmall⟩ := Bool.and_eq_true_iff.1 hread
    constructor
    · intro h
      obtain rfl := Option.some.inj h
      exact ⟨List.all_eq_true.1 hdigits,
        (UInt32.toNat_ofNat_of_lt (of_decide_eq_true hsmall)).symm⟩
    · rintro ⟨-, hvalue⟩
      rw [hvalue, UInt32.ofNat_toNat]
  · next hread =>
    constructor
    · intro h
      cases h
    · rintro ⟨hdigits, hvalue⟩
      have hsmall : Decimal.value digits < UInt32.size := hvalue ▸ line.toNat_lt
      exact absurd
        (Bool.and_eq_true_iff.2 ⟨List.all_eq_true.2 hdigits, decide_eq_true hsmall⟩) hread

/-- What is read has the parts. -/
theorem directs_of_parse? {text : List Char} {line : UInt32} {quoted : Option (List Char)}
    (h : parse? text = some ⟨line, quoted⟩) : Directs line.toNat quoted text := by
  simp only [parse?] at h
  split at h
  · cases h
  · next hsome =>
    split at h
    · cases h
    · next found rest hsplit =>
      split at h
      · next htail =>
        obtain ⟨number, hnumber, hpair⟩ := Option.map_eq_some_iff.1 h
        obtain ⟨rfl, rfl⟩ := LineDirective.mk.inj hpair
        obtain ⟨named, hnamed, hbehind⟩ := named_of_splitQuoted hsplit
        obtain ⟨flags, back, hflags, hback, rfl⟩ := isTail_closed_iff.1 htail
        obtain ⟨hdigits, hvalue⟩ := lineNumber?_eq_some_iff.1 hnumber
        have htext : text = text.takeWhile isBlank
            ++ ((dropBlanks text).takeWhile isDecimalDigit ++ (named ++ (flags ++ back))) := by
          rw [← hbehind, List.takeWhile_append_dropWhile, dropBlanks,
            List.takeWhile_append_dropWhile]
        rw [htext]
        exact .parts (fun c hc => List.mem_takeWhile_imp hc) (by simpa using hsome) hdigits hvalue
          number.toNat_lt hnamed hflags hback
      · cases h

/-- What has the parts is read. -/
theorem parse?_of_directs {text : List Char} {line : Nat} {quoted : Option (List Char)}
    (h : Directs line quoted text) : parse? text = some ⟨UInt32.ofNat line, quoted⟩ := by
  obtain @⟨front, digits, named, flags, back, hfront, hsome, hdigits, hline, hsmall, hnamed, hflags,
    hback⟩ := h
  have hrest : Trailing (flags ++ back) := ⟨flags, back, hflags, hback, rfl⟩
  have hrun : Digits digits := fun c hc => isDecimalDigit_of_isDigit (hdigits c hc)
  have hdrop : dropBlanks (front ++ (digits ++ (named ++ (flags ++ back))))
      = digits ++ (named ++ (flags ++ back)) := by
    obtain ⟨d, digits, rfl⟩ := List.exists_cons_of_ne_nil hsome
    exact dropBlanks_append hfront (isBlank_of_isDecimalDigit (hrun d List.mem_cons_self)) _
  obtain ⟨htake, hleft⟩ := takeWhile_digits hrun (startsBlank_append hnamed hrest)
  have hnumber : lineNumber? digits = some (UInt32.ofNat line) :=
    lineNumber?_eq_some_iff.2 ⟨hdigits, hline.trans (UInt32.toNat_ofNat_of_lt hsmall).symm⟩
  have hempty : ¬ digits.isEmpty = true := by
    rwa [List.isEmpty_iff]
  simp only [parse?]
  rw [hdrop, htake, hleft, if_neg hempty, splitQuoted_of_named hnamed hrest]
  simp only [isTail_closed_iff.2 hrest, if_true, hnumber, Option.map_some]

/-- **A directive is read exactly if it has the parts.** -/
theorem parse?_eq_some_iff {text : List Char} {line : UInt32} {quoted : Option (List Char)} :
    parse? text = some ⟨line, quoted⟩ ↔ Directs line.toNat quoted text := by
  refine ⟨directs_of_parse?, ?_⟩
  intro h
  rw [parse?_of_directs h, UInt32.ofNat_toNat]

end LineDirective
end SyntaxTree
