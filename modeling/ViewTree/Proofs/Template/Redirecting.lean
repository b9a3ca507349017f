import ViewTree.Proofs.Template.Receiving
import ViewTree.Template.Defaults
/-!
# A custom receiver

The diagnostics of the stages are told one after the other, and each of them is collected under its
kind or handed to the custom receiver (`Collected.tell`). Two compilations that differ in nothing
but a receiver stay together over every diagnostic (`Collected.Redirected.tell`), so what the one
has collected is what the receiver of the other got, kind by kind and in the same order. The errors
that are found in expressions are collected by both (`compile_redirects`).
-/

namespace ViewTree.Template

/-- Where the diagnostics have gone so far. -/
structure Collected where
  errors : List String
  tips : List String
  received : List Diagnostic

namespace Collected

/-- Nothing has been told. -/
def start : Collected :=
  ⟨[], [], []⟩

/-- A diagnostic goes to the custom receiver, or among those of its kind. -/
def tell (custom : Bool) (c : Collected) (d : Diagnostic) : Collected :=
  if custom then { c with received := c.received ++ [d] }
  else if d.isTip then { c with tips := c.tips ++ [d.message] }
  else { c with errors := c.errors ++ [d.message] }

/-- The diagnostics one after the other. -/
def run (custom : Bool) (c : Collected) (ds : List Diagnostic) : Collected :=
  ds.foldl (tell custom) c

/-- What is collected without a receiver is what the receiver has got otherwise. -/
structure Redirected (plain custom : Collected) : Prop where
  kept : plain.received = []
  noErrors : custom.errors = []
  noTips : custom.tips = []
  errors : messagesOf false custom.received = plain.errors
  tips : messagesOf true custom.received = plain.tips

theorem messagesOf_concat (tips : Bool) (ds : List Diagnostic) (d : Diagnostic) :
    messagesOf tips (ds ++ [d]) =
      if d.isTip = tips then messagesOf tips ds ++ [d.message] else messagesOf tips ds := by
  rw [messagesOf, List.filter_append, List.map_append, ← messagesOf]
  by_cases hd : d.isTip = tips
  · simp [hd]
  · simp [hd]

theorem redirected_start : Redirected start start :=
  ⟨rfl, rfl, rfl, rfl, rfl⟩

/-- One diagnostic, told to both. -/
theorem Redirected.tell {plain custom : Collected} (h : Redirected plain custom) (d : Diagnostic) :
    Redirected (plain.tell false d) (custom.tell true d) := by
  cases hd : d.isTip with
  | true =>
    have hplain : plain.tell false d = { plain with tips := plain.tips ++ [d.message] } := by
      simp [Collected.tell, hd]
    rw [hplain]
    refine ⟨h.kept, h.noErrors, h.noTips, ?_, ?_⟩
    · exact (messagesOf_concat false custom.received d).trans (by simp [hd, h.errors])
    · exact (messagesOf_concat true custom.received d).trans (by simp [hd, h.tips])
  | false =>
    have hplain : plain.tell false d = { plain with errors := plain.errors ++ [d.message] } := by
      simp [Collected.tell, hd]
    rw [hplain]
    refine ⟨h.kept, h.noErrors, h.noTips, ?_, ?_⟩
    · exact (messagesOf_concat false custom.received d).trans (by simp [hd, h.errors])
    · exact (messagesOf_concat true custom.received d).trans (by simp [hd, h.tips])

/-- All diagnostics, told to both. -/
theorem Redirected.run {plain custom : Collected} (h : Redirected plain custom)
    (ds : List Diagnostic) : Redirected (plain.run false ds) (custom.run true ds) := by
  induction ds generalizing plain custom with
  | nil => exact h
  | cons d ds ih => exact ih (h.tell d)

theorem run_true (c : Collected) (ds : List Diagnostic) :
    c.run true ds = { c with received := c.received ++ ds } := by
  induction ds generalizing c with
  | nil => rw [List.append_nil]; rfl
  | cons d ds ih =>
    have hstep : c.run true (d :: ds) = (c.tell true d).run true ds := rfl
    rw [hstep, ih]
    simp [tell]

theorem received_run_start (ds : List Diagnostic) : (start.run true ds).received = ds := by
  rw [run_true]
  rfl

end Collected

/-- Compiling tells the diagnostics of the stages one after the other. Errors in expressions are
collected behind them, whoever the receiver is. -/
theorem compileWith_run (stage : Stage) (s : Settings) (template : String) :
    let told := Collected.start.run s.customReceiver (stage s template).2
    compileWith stage s template =
      { result :=
          { template := (stage s template).1
            errors := told.errors ++ Lint.nodesErrors (stage s template).1.ast
            tips := told.tips }
        received := told.received } := by
  have hrun := Collected.redirected_start.run (stage s template).2
  have herrors := hrun.errors
  have htips := hrun.tips
  rw [Collected.received_run_start] at herrors htips
  cases hcustom : s.customReceiver with
  | false => simp [compileWith, hcustom, herrors, htips, hrun.kept]
  | true => simp [compileWith, hcustom, hrun.noErrors, hrun.noTips, messagesOf,
      Collected.received_run_start]

/-- The second compilation hands over what the first one collects from its stages, and gives the
same otherwise. -/
structure Redirects (plain custom : Compilation) : Prop where
  ast : custom.result.template.ast = plain.result.template.ast
  render : custom.result.template.render = plain.result.template.render
  staticRenderFns : custom.result.template.staticRenderFns = plain.result.template.staticRenderFns
  kept : plain.received = []
  noTips : custom.result.tips = []
  tips : messagesOf true custom.received = plain.result.tips
  errors : plain.result.errors = messagesOf false custom.received ++ custom.result.errors

/-- A custom receiver only redirects what the stages tell: whatever the settings and the template
are, the same call with a receiver gives the same tree and functions, and the tips and the errors of
the stages go to the receiver, each kind complete and in order. -/
theorem compile_redirects {plain custom : Compiler} {o o' : Option Overrides}
    (hplain : plain.stage = compileTemplate) (hcustom : custom.stage = compileTemplate)
    (hnone : (plain.settings o).customReceiver = false)
    (hreceiver : custom.settings o' = (plain.settings o).withReceiver true) (template : String) :
    Redirects (plain.compile template o) (custom.compile template o') := by
  generalize hs : plain.settings o = s at hnone hreceiver
  have hsame : compileTemplate (s.withReceiver true) template = compileTemplate s template :=
    compileTemplate_withReceiver s true template
  have hon : (s.withReceiver true).customReceiver = true := rfl
  have hrun := Collected.redirected_start.run (compileTemplate s template).2
  rw [Compiler.compile, Compiler.compile, hplain, hcustom, hs, hreceiver, compileWith_run,
    compileWith_run, hsame, hon, hnone]
  refine ⟨rfl, rfl, rfl, hrun.kept, hrun.noTips, hrun.tips, ?_⟩
  dsimp only
  rw [hrun.noErrors, hrun.errors, List.nil_append]

/-- A call that asks for a receiver and for nothing else. -/
def Overrides.receiving : Overrides :=
  { Overrides.none with customReceiver := true }

/-- An attribute is given twice, a list of components has no keys, and an expression is none. -/
def troubled : String :=
  "<p id=\"a\" id=\"b\">\x7b\x7b 1 + \x7d\x7d<x-a v-for=\"i in xs\"/></p>"

/-- The receiver gets an error of the builder and a tip of the generator; the error in the
expression is collected. -/
theorem compile_redirects_troubled :
    Redirects ((Compiler.new .base compileTemplate).compile troubled none)
        ((Compiler.new .base compileTemplate).compile troubled (some .receiving)) ∧
      ((Compiler.new .base compileTemplate).compile troubled (some .receiving)).received =
        [.error "duplicate attribute: id",
          .tip ("<x-a v-for=\"i in xs\">: component lists rendered with v-for should have " ++
            "explicit keys.")] ∧
      ((Compiler.new .base compileTemplate).compile troubled
        (some .receiving)).result.errors.length = 1 := by
  refine ⟨compile_redirects rfl rfl rfl rfl troubled, ?_, ?_⟩
  · decide +kernel
  · decide +kernel

end ViewTree.Template
