import ReleaseAudit.Fixture.Expectation

/-!
# Matching a line

Each expectation claims the first diagnostic that it accepts and that is still
unclaimed. Expectations with a name go first, so that one without a name does
not take the only diagnostic that a name would accept.
-/

namespace ReleaseAudit.Fixture

set_option autoImplicit false

open Verdict (Diagnostic Holder)

inductive Mismatch where
  | missing (expected : Expectation)
  | unexpected (holder : Holder) (name : Option String) (typeName : String)
deriving DecidableEq, Repr

namespace Mismatch

def ofDiagnostic (diagnostic : Diagnostic) : Mismatch :=
  .unexpected diagnostic.holder diagnostic.variableName diagnostic.typeName

def message : Mismatch → String
  | missing expected => "expected `" ++ expected.written ++ "`, but nothing was reported"
  | unexpected holder (some name) typeName =>
      "unexpected " ++ holder.label ++ ": " ++ name ++ " (" ++ typeName ++ ")"
  | unexpected holder none typeName => "unexpected " ++ holder.label ++ " (" ++ typeName ++ ")"

end Mismatch

structure Leftover where
  missing : List Expectation
  unclaimed : List Diagnostic
deriving DecidableEq, Repr

/-- Lets the expectations claim diagnostics, one after the other. -/
def claimAll : List Expectation → List Diagnostic → Leftover
  | [], diagnostics => ⟨[], diagnostics⟩
  | expectation :: rest, diagnostics =>
      if diagnostics.any expectation.accepts then
        claimAll rest (diagnostics.eraseP expectation.accepts)
      else
        let later := claimAll rest diagnostics
        ⟨expectation :: later.missing, later.unclaimed⟩

def namedFirst (expectations : List Expectation) : List Expectation :=
  (expectations.filter fun expectation => expectation.name.isSome) ++
    expectations.filter fun expectation => expectation.name.isNone

/-- What is wrong with a line; nothing when it gives exactly what is expected. -/
def matchLine (expectations : List Expectation) (diagnostics : List Diagnostic) : List Mismatch :=
  let leftover := claimAll (namedFirst expectations) diagnostics
  leftover.missing.map .missing ++ leftover.unclaimed.map .ofDiagnostic

end ReleaseAudit.Fixture
