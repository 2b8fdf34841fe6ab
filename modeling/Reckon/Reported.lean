import Reckon.Diagnostic

/-!
Results with the diagnostics given on the way to them, and attempts that may fail while they still
report.
-/

namespace Reckon

/-- A result and the diagnostics given for it, in order. -/
structure Reported (α : Type) where
  result : α
  diagnostics : List Diagnostic
deriving Repr

namespace Reported

instance : Monad Reported where
  pure a := ⟨a, []⟩
  bind x f := ⟨(f x.result).result, x.diagnostics ++ (f x.result).diagnostics⟩

@[simp] theorem result_pure {α : Type} (a : α) : (pure a : Reported α).result = a := rfl

@[simp] theorem diagnostics_pure {α : Type} (a : α) : (pure a : Reported α).diagnostics = [] := rfl

@[simp] theorem result_bind {α β : Type} (x : Reported α) (f : α → Reported β) :
    (x >>= f).result = (f x.result).result := rfl

@[simp] theorem diagnostics_bind {α β : Type} (x : Reported α) (f : α → Reported β) :
    (x >>= f).diagnostics = x.diagnostics ++ (f x.result).diagnostics := rfl

@[simp] theorem result_map {α β : Type} (f : α → β) (x : Reported α) :
    (f <$> x).result = f x.result := rfl

@[simp] theorem diagnostics_map {α β : Type} (f : α → β) (x : Reported α) :
    (f <$> x).diagnostics = x.diagnostics := List.append_nil _

theorem ext' {α : Type} {x y : Reported α} (h : x.result = y.result)
    (hd : x.diagnostics = y.diagnostics) : x = y := by
  cases x; cases y; simp_all

instance : LawfulMonad Reported :=
  LawfulMonad.mk' Reported (fun _ => ext' rfl (List.append_nil _)) (fun _ _ => rfl)
    (fun _ _ _ => ext' rfl (List.append_assoc _ _ _))

theorem bind_congr {α β : Type} {x : Reported α} {f g : α → Reported β}
    (h : f x.result = g x.result) : x >>= f = x >>= g :=
  ext' (by simp [h]) (by simp [h])

/-- Reports a cause. -/
def report (cause : Cause) (span? : Option Span) : Reported Unit := ⟨(), [⟨cause, span?⟩]⟩

end Reported

/-- Reports a cause at a place of the source. -/
def reportAt (start stop : Nat) (cause : Cause) : Reported Unit :=
  .report cause (some ⟨start, stop⟩)

/-- Reports a cause at a place of the source, if there is one. -/
def reportAt? (start stop : Nat) (cause? : Option Cause) : Reported Unit :=
  match cause? with
  | some cause => reportAt start stop cause
  | none => pure ()

/-- Reports a cause that has no known place. -/
def report (cause : Cause) : Reported Unit := .report cause none

/-- A result that may be a failure; the diagnostics are kept in either case. -/
abbrev Attempt (α : Type) := ExceptT Failure Reported α

end Reckon
