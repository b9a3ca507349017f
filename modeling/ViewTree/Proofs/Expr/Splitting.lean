import ViewTree.Expr.Arguments
import ViewTree.Proofs.Expr.Literals
/-!
# Splitting what is joined

Expressions with commas between them are split into themselves again exactly if the scan over each
of them finds no comma at the top, and is back at the top behind each of them but the last one
(`splitArguments_joined`). That is so if no literal holds its own quote: then the scan sees the
literals where the reader of expressions sees them. A quote behind a backslash ends the literal for
the scan, and only for the scan.
-/

namespace ViewTree.Expr

/-! ## The scan of a list -/

namespace ArgumentScan

/-- Outside of quotes and brackets. -/
def start : ArgumentScan :=
  ⟨none, 0⟩

/-- The state behind a text. -/
def run (s : ArgumentScan) (cs : List Char) : ArgumentScan :=
  cs.foldl next s

/-- No comma of the text separates arguments. -/
def Unbroken : ArgumentScan → List Char → Prop
  | _, [] => True
  | s, c :: cs => ¬ (c = ',' ∧ s.atTop) ∧ (s.next c).Unbroken cs

theorem atTop_iff {s : ArgumentScan} : s.atTop ↔ s = start := by
  obtain ⟨quote, depth⟩ := s
  simp [atTop, start]

@[simp] theorem run_nil (s : ArgumentScan) : s.run [] = s :=
  rfl

@[simp] theorem run_cons (s : ArgumentScan) (c : Char) (cs : List Char) :
    s.run (c :: cs) = (s.next c).run cs :=
  rfl

theorem run_append (s : ArgumentScan) (a b : List Char) : s.run (a ++ b) = (s.run a).run b :=
  List.foldl_append

theorem unbroken_append {s : ArgumentScan} {a b : List Char} :
    s.Unbroken (a ++ b) ↔ s.Unbroken a ∧ (s.run a).Unbroken b := by
  induction a generalizing s with
  | nil => simp [Unbroken]
  | cons c a ih => simp only [List.cons_append, Unbroken, run_cons, ih, and_assoc]

end ArgumentScan

open ArgumentScan (start)

theorem splitFrom_ne_nil (s : ArgumentScan) (cs : List Char) : splitFrom s cs ≠ [] := by
  cases cs with
  | nil => exact List.cons_ne_nil _ _
  | cons c cs =>
    rw [splitFrom]
    repeat' split
    all_goals exact List.cons_ne_nil _ _

theorem splitFrom_comma (cs : List Char) : splitFrom start (',' :: cs) = [] :: splitFrom start cs :=
  rfl

/-- A character that does not separate belongs to the first argument. -/
theorem splitFrom_cons {s : ArgumentScan} {c : Char} (h : ¬ (c = ',' ∧ s.atTop)) {cs : List Char}
    {arg : List Char} {args : List (List Char)} (hcs : splitFrom (s.next c) cs = arg :: args) :
    splitFrom s (c :: cs) = (c :: arg) :: args := by
  simp only [splitFrom, hcs]
  exact if_neg (by simpa using h)

/-- The first argument goes up to the first comma at the top, and the other arguments are those of
the text behind it. -/
def SplitsOff (s : ArgumentScan) (cs arg : List Char) (args : List (List Char)) : Prop :=
  s.Unbroken arg ∧ (args = [] ∧ cs = arg ∨
    ∃ rest, cs = arg ++ ',' :: rest ∧ s.run arg = start ∧ splitFrom start rest = args)

section

variable {s : ArgumentScan} {c : Char} {cs arg : List Char} {args : List (List Char)}

theorem splitsOff_nil : SplitsOff s [] arg args ↔ arg = [] ∧ args = [] := by
  simp only [SplitsOff, List.nil_eq, List.append_eq_nil_iff, List.cons_ne_nil, and_false,
    false_and, exists_false, or_false]
  constructor
  · rintro ⟨-, hargs, harg⟩
    exact ⟨harg, hargs⟩
  · rintro ⟨rfl, hargs⟩
    exact ⟨trivial, hargs, rfl⟩

/-- In front of a comma at the top, the first argument is at its end. -/
theorem splitsOff_comma :
    SplitsOff start (',' :: cs) arg args ↔ arg = [] ∧ splitFrom start cs = args := by
  constructor
  · rintro ⟨hunbroken, hends⟩
    cases arg with
    | nil =>
      rcases hends with ⟨-, hcs⟩ | ⟨rest, hcs, -, hargs⟩
      · cases hcs
      · cases hcs
        exact ⟨rfl, hargs⟩
    | cons d arg =>
      have hd : d = ',' := by
        rcases hends with ⟨-, hcs⟩ | ⟨rest, hcs, -⟩
        · exact (List.cons.inj hcs).1.symm
        · exact (List.cons.inj hcs).1.symm
      exact absurd ⟨hd, rfl⟩ hunbroken.1
  · rintro ⟨rfl, hargs⟩
    exact ⟨trivial, .inr ⟨cs, rfl, rfl, hargs⟩⟩

theorem splitsOff_cons (hc : ¬ (c = ',' ∧ s.atTop)) :
    SplitsOff s (c :: cs) arg args ↔
      ∃ rest, arg = c :: rest ∧ SplitsOff (s.next c) cs rest args := by
  constructor
  · rintro ⟨hunbroken, hends⟩
    cases arg with
    | nil =>
      rcases hends with ⟨-, hcs⟩ | ⟨rest, hcs, hstart, -⟩
      · cases hcs
      · cases hcs
        exact absurd ⟨rfl, ArgumentScan.atTop_iff.2 hstart⟩ hc
    | cons d arg =>
      rcases hends with ⟨hargs, hcs⟩ | ⟨rest, hcs, hstart, hargs⟩
      · cases hcs
        exact ⟨_, rfl, hunbroken.2, .inl ⟨hargs, rfl⟩⟩
      · cases hcs
        exact ⟨arg, rfl, hunbroken.2, .inr ⟨rest, rfl, hstart, hargs⟩⟩
  · rintro ⟨arg, rfl, hunbroken, hends⟩
    refine ⟨⟨hc, hunbroken⟩, ?_⟩
    rcases hends with ⟨hargs, rfl⟩ | ⟨rest, rfl, hstart, hargs⟩
    · exact .inl ⟨hargs, rfl⟩
    · exact .inr ⟨rest, rfl, hstart, hargs⟩

theorem splitFrom_eq_cons_iff : splitFrom s cs = arg :: args ↔ SplitsOff s cs arg args := by
  induction cs generalizing s arg with
  | nil =>
    rw [splitsOff_nil, splitFrom, List.cons.injEq, eq_comm, @eq_comm _ [] args]
  | cons c cs ih =>
    by_cases hc : c = ',' ∧ s.atTop
    · obtain ⟨rfl, htop⟩ := hc
      obtain rfl := ArgumentScan.atTop_iff.1 htop
      rw [splitsOff_comma, splitFrom_comma, List.cons.injEq, eq_comm]
    · obtain ⟨first, others, hothers⟩ := List.exists_cons_of_ne_nil (splitFrom_ne_nil (s.next c) cs)
      rw [splitsOff_cons hc, splitFrom_cons hc hothers]
      constructor
      · rintro ⟨⟩
        exact ⟨first, rfl, ih.1 hothers⟩
      · rintro ⟨rest, rfl, hrest⟩
        have hsplit := ih.2 hrest
        rw [hothers] at hsplit
        cases hsplit
        rfl

end

/-! ## Joined arguments -/

/-- The scan tells the arguments apart: it finds no comma at the top inside of them, and behind each
of them but the last one it is outside of quotes and brackets. -/
structure ToldApart (args : List String) : Prop where
  unbroken : ∀ a ∈ args, start.Unbroken a.toList
  closed : ∀ a ∈ args.dropLast, start.run a.toList = start

theorem toldApart_singleton {a : String} : ToldApart [a] ↔ start.Unbroken a.toList :=
  ⟨fun h => h.unbroken a List.mem_cons_self, fun h => ⟨List.forall_mem_singleton.2 h, by simp⟩⟩

theorem toldApart_cons {a b : String} {args : List String} :
    ToldApart (a :: b :: args) ↔
      start.Unbroken a.toList ∧ start.run a.toList = start ∧ ToldApart (b :: args) := by
  constructor
  · rintro ⟨hunbroken, hclosed⟩
    obtain ⟨ha, hargs⟩ := List.forall_mem_cons.1 hunbroken
    obtain ⟨hback, hothers⟩ := List.forall_mem_cons.1 hclosed
    exact ⟨ha, hback, hargs, hothers⟩
  · rintro ⟨ha, hback, hargs⟩
    exact ⟨List.forall_mem_cons.2 ⟨ha, hargs.unbroken⟩,
      List.forall_mem_cons.2 ⟨hback, hargs.closed⟩⟩

theorem splitFrom_joined {args : List String} (hne : args ≠ []) :
    splitFrom start (",".intercalate args).toList = args.map String.toList ↔ ToldApart args := by
  induction args with
  | nil => exact absurd rfl hne
  | cons a args ih =>
    rw [List.map_cons, splitFrom_eq_cons_iff]
    cases args with
    | nil =>
      rw [String.intercalate_singleton, toldApart_singleton]
      simp [SplitsOff]
    | cons b args =>
      have hjoined : (",".intercalate (a :: b :: args)).toList =
          a.toList ++ ',' :: (",".intercalate (b :: args)).toList := by
        rw [String.intercalate_cons_cons, String.toList_append, String.toList_append,
          List.append_assoc]
        rfl
      rw [hjoined, toldApart_cons, ← ih (List.cons_ne_nil b args)]
      simp [SplitsOff]

theorem splitArguments_of_nonblank {src : String} (h : Text.allBlank src = false) :
    splitArguments src = (splitFrom start src.toList).map String.ofList := by
  rw [splitArguments, h]
  rfl

/-- A blank text is no expression. -/
theorem allBlank_of_parse {src : String} {e : Expr} (h : parse src = .ok e) :
    Text.allBlank src = false := by
  rw [Bool.eq_false_iff]
  intro hblank
  have hempty : Text.dropBlank src.toList = [] :=
    List.dropWhile_eq_nil_iff.2 (List.all_eq_true.1 hblank)
  simp [parse, hempty] at h

theorem allBlank_intercalate {a : String} (ha : Text.allBlank a = false) (args : List String) :
    Text.allBlank (",".intercalate (a :: args)) = false := by
  cases args with
  | nil => rwa [String.intercalate_singleton]
  | cons b args =>
    rw [Text.allBlank] at ha ⊢
    rw [String.intercalate_cons_cons, String.toList_append, String.toList_append, List.all_append,
      List.all_append, ha, Bool.false_and, Bool.false_and]

/-! ## Arguments that are expressions -/

/-- The scan finds no comma at the top, and is behind the text where it was in front of it. -/
structure Passes (s : ArgumentScan) (cs : List Char) : Prop where
  unbroken : s.Unbroken cs
  back : s.run cs = s

theorem passes_nil (s : ArgumentScan) : Passes s [] :=
  ⟨trivial, rfl⟩

theorem Passes.append {s : ArgumentScan} {a b : List Char} (ha : Passes s a) (hb : Passes s b) :
    Passes s (a ++ b) :=
  ⟨ArgumentScan.unbroken_append.2 ⟨ha.unbroken, ha.back.symm ▸ hb.unbroken⟩,
    by rw [ArgumentScan.run_append, ha.back, hb.back]⟩

/-- A pair of characters that lead away and back again, with what passes between them. -/
theorem Passes.enclosed {s inner : ArgumentScan} {opening closing : Char} {inside : List Char}
    (hopening : s.next opening = inner) (hinside : Passes inner inside)
    (hclosing : inner.next closing = s) (hopen : opening ≠ ',') (hclose : closing ≠ ',') :
    Passes s (opening :: (inside ++ [closing])) := by
  refine ⟨⟨fun h => hopen h.1, ?_⟩, ?_⟩
  · rw [hopening, ArgumentScan.unbroken_append, hinside.back]
    exact ⟨hinside.unbroken, fun h => hclose h.1, trivial⟩
  · rw [ArgumentScan.run_cons, hopening, ArgumentScan.run_append, hinside.back,
      ArgumentScan.run_cons, hclosing, ArgumentScan.run_nil]

/-- Inside a quote, only that quote matters. -/
theorem passes_quoted {quote : Char} {body : List Char} (h : quote ∉ body) (depth : Int) :
    Passes ⟨some quote, depth⟩ body := by
  induction body with
  | nil => exact passes_nil _
  | cons c body ih =>
    obtain ⟨hc, hbody⟩ := List.ne_and_not_mem_of_not_mem_cons h
    have hnext : (⟨some quote, depth⟩ : ArgumentScan).next c = ⟨some quote, depth⟩ :=
      if_neg (Ne.symm hc)
    have hone : Passes ⟨some quote, depth⟩ [c] := by
      refine ⟨⟨?_, trivial⟩, hnext⟩
      rintro ⟨-, htop⟩
      cases ArgumentScan.atTop_iff.1 htop
    exact hone.append (ih hbody)

theorem passes_mark {c : Char} (hc : c ∉ separators) (depth : Int) : Passes ⟨none, depth⟩ [c] := by
  simp only [separators, List.mem_cons, List.not_mem_nil, or_false, not_or] at hc
  obtain ⟨hcomma, hdouble, hsingle, hround, hround', hsquare, hsquare'⟩ := hc
  refine ⟨⟨fun h => hcomma h.1, trivial⟩, ?_⟩
  simp [ArgumentScan.next, hdouble, hsingle, hround, hround', hsquare, hsquare']

/-- No literal of the text holds its own quote, which it could only behind a backslash. -/
def QuotesPlainly (src : String) : Prop :=
  ∀ l ∈ (literals src).closed, l.quote ∉ l.body

/-- Where no literal holds its own quote, the scan and the reader see the same literals. -/
theorem passes_of_lexed {cs : List Char} (h : Lexed cs)
    (hplain : ∀ l ∈ (literalsFrom none cs).closed, l.quote ∉ l.body) (depth : Int) :
    Passes ⟨none, depth⟩ cs := by
  induction h generalizing depth with
  | nil => exact passes_nil _
  | @mark c cs hc hcs ih =>
    have hmark : Lexed [c] := .mark hc .nil
    rw [← List.singleton_append, literalsFrom_append hmark] at hplain
    exact (passes_mark hc depth).append (ih (List.forall_mem_append.1 hplain).2 depth)
  | @literal quote body cs hquote hbody _ ih =>
    rw [literalsFrom_quote hquote, literalsFrom_body hquote hbody] at hplain
    obtain ⟨hown, hothers⟩ := List.forall_mem_cons.1 hplain
    have hopen : (⟨none, depth⟩ : ArgumentScan).next quote = ⟨some quote, depth⟩ := by
      rcases hquote with rfl | rfl <;> rfl
    have hclose : (⟨some quote, depth⟩ : ArgumentScan).next quote = ⟨none, depth⟩ := if_pos rfl
    have hcomma : quote ≠ ',' := by rcases hquote with rfl | rfl <;> decide
    have hliteral : Passes ⟨none, depth⟩ (quote :: (body ++ [quote])) :=
      .enclosed hopen (passes_quoted hown depth) hclose hcomma hcomma
    simpa using hliteral.append (ih hothers depth)
  | @brackets inside cs hinside _ ihinside ih =>
    have hskip (c : Char) (hdouble : c ≠ '"') (hsingle : c ≠ '\'') (ts : List Char) :
        literalsFrom none (c :: ts) = literalsFrom none ts := literalsFrom_mark hdouble hsingle ts
    rw [hskip '[' (by decide) (by decide), literalsFrom_append hinside,
      hskip ']' (by decide) (by decide)] at hplain
    obtain ⟨hin, hothers⟩ := List.forall_mem_append.1 hplain
    have hclose : (⟨none, depth + 1⟩ : ArgumentScan).next ']' = ⟨none, depth⟩ :=
      congrArg (ArgumentScan.mk none) (Int.add_sub_cancel depth 1)
    have hpair : Passes ⟨none, depth⟩ ('[' :: (inside ++ [']'])) :=
      .enclosed rfl (ihinside hin (depth + 1)) hclose (by decide) (by decide)
    simpa using hpair.append (ih hothers depth)

theorem toldApart_of_plain {args : List String}
    (hargs : ∀ a ∈ args, ∃ e, parse a = .ok e) (hplain : ∀ a ∈ args, QuotesPlainly a) :
    ToldApart args := by
  have hpasses : ∀ a ∈ args, Passes start a.toList := fun a ha => by
    obtain ⟨e, he⟩ := hargs a ha
    exact passes_of_lexed (lexed_of_parse he) (hplain a ha) 0
  exact ⟨fun a ha => (hpasses a ha).unbroken,
    fun a ha => (hpasses a (List.dropLast_subset args ha)).back⟩

/-- Expressions with commas between them are split into themselves again exactly if the scan tells
them apart, and so they are if no literal in them holds its own quote. -/
theorem splitArguments_joined {args : List String} (hne : args ≠ [])
    (hargs : ∀ a ∈ args, ∃ e, parse a = .ok e) :
    (splitArguments (",".intercalate args) = args ↔ ToldApart args) ∧
      ((∀ a ∈ args, QuotesPlainly a) → splitArguments (",".intercalate args) = args) := by
  have hnonblank : Text.allBlank (",".intercalate args) = false := by
    obtain ⟨a, others, rfl⟩ := List.exists_cons_of_ne_nil hne
    obtain ⟨e, he⟩ := hargs a List.mem_cons_self
    exact allBlank_intercalate (allBlank_of_parse he) others
  have hiff : splitArguments (",".intercalate args) = args ↔ ToldApart args := by
    rw [splitArguments_of_nonblank hnonblank, ← splitFrom_joined hne]
    constructor
    · intro h
      conv_rhs => rw [← h]
      simp
    · intro h
      rw [h]
      simp
  exact ⟨hiff, fun hplain => hiff.2 (toldApart_of_plain hargs hplain)⟩

/-- A comma, brackets and the other quote inside of literals do no harm. -/
theorem splitArguments_joined_quoted :
    let args := ["!a[\"]\"]", " 'x,\"(y'", "b['k'][ 0 ]"]
    args ≠ [] ∧ (∀ a ∈ args, ∃ e, parse a = .ok e) ∧ (∀ a ∈ args, QuotesPlainly a) ∧
      splitArguments "!a[\"]\"], 'x,\"(y',b['k'][ 0 ]" = args := by
  intro args
  have hargs : ∀ a ∈ args, ∃ e, parse a = .ok e := by
    have hall : args.all fun a => (parse a).toOption.isSome := by decide +kernel
    intro a ha
    have hsome := List.all_eq_true.1 hall a ha
    cases hparse : parse a with
    | ok e => exact ⟨e, rfl⟩
    | error e => simp [hparse, Except.toOption] at hsome
  have hplain : ∀ a ∈ args, QuotesPlainly a := by
    have hall : args.all fun a => (literals a).closed.all fun l => !l.body.contains l.quote := by
      decide +kernel
    intro a ha l hl
    simpa using List.all_eq_true.1 (List.all_eq_true.1 hall a ha) l hl
  have hjoined : ",".intercalate args = "!a[\"]\"], 'x,\"(y',b['k'][ 0 ]" := by decide +kernel
  have hsplit := (splitArguments_joined (List.cons_ne_nil _ _) hargs).2 hplain
  rw [hjoined] at hsplit
  exact ⟨List.cons_ne_nil _ _, hargs, hplain, hsplit⟩

/-- A quote behind a backslash ends the literal for the scan, and the comma behind it separates. -/
theorem escapedQuote_splits :
    ¬ ∀ args : List String, args ≠ [] → (∀ a ∈ args, ∃ e, parse a = .ok e) →
      splitArguments (",".intercalate args) = args := by
  intro h
  have hparse : parse "'it\\'s, ok'" = .ok (.literal (.string "it's, ok")) := by rfl
  have hsplit := h ["'it\\'s, ok'"] (List.cons_ne_nil _ _) (List.forall_mem_singleton.2 ⟨_, hparse⟩)
  have hpieces : splitArguments (",".intercalate ["'it\\'s, ok'"]) = ["'it\\'s", " ok'"] := by
    decide +kernel
  exact absurd (hpieces.symm.trans hsplit) (by decide)

end ViewTree.Expr
