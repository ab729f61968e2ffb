import TypedJson.Env
import TypedJson.Failure

/-!
# Checking values against types

`checkAt` decides whether a value, or a missing one, conforms to a type in an
environment. Every reference that is resolved and every step into a part of a type
goes one level down; `level` is what happens on one level. A check that needs more
levels than it has is given up. A reference is resolved in the environment at the
place where it is met.

`Checker.check` first tries a few levels. A check that needs more is run again with
all levels, in a work area whose size follows from their number; when the system does
not give it that area, the check stays within the few levels. `Checker.checkGiven` takes
the system's answer as a parameter. `Checker.hasRoom` stands for the answer wherever a
check is part of something larger.
-/

set_option autoImplicit false

namespace TypedJson

namespace Check

/-- The values that a basic kind takes. Both number kinds take every number. -/
def basicAccepts : Basic → Option Value → Bool
  | .void, none => true
  | .null, some .null => true
  | .bool, some (.bool _) => true
  | .int, some (.number _) => true
  | .float, some (.number _) => true
  | .string, some (.string _) => true
  | _, _ => false

/-- Runs through a list up to the first failure. -/
def every {α : Type} (check : α → Except Failure Unit) : List α → Except Failure Unit
  | [] => .ok ()
  | a :: rest =>
      match check a with
      | .ok _ => every check rest
      | .error failure => .error failure

/-- How the alternatives of a union fared. -/
inductive Trial where
  | accepted
  | stopped (failure : Failure)
  | exhausted (chain : List Failure)

/-- Tries alternatives in order: the first that accepts decides, a fatal failure
ends the trial, and otherwise all failures are kept. -/
def tryEach (check : Ty → Except Failure Unit) : List Ty → Trial
  | [] => .exhausted []
  | t :: rest =>
      match check t with
      | .ok _ => .accepted
      | .error failure =>
          if failure.isFatal then .stopped failure
          else
            match tryEach check rest with
            | .exhausted chain => .exhausted (failure :: chain)
            | trial => trial

/-- How values, or missing ones, are checked against types in environments. -/
abbrev Judge := Env → Option Value → Ty → Except Failure Unit

/-- Checks the name of a member of an object as a text, then its value. -/
def memberCheck (inner : Judge) (env : Env) (key value : Ty) (member : String × Value) :
    Except Failure Unit :=
  match inner env (some (.string member.1)) key with
  | .ok _ => inner env (some member.2) value
  | .error failure => .error failure

/-- One level of a check. The parts of the type, and what a reference means, are left
to `inner`. -/
def level (inner : Judge) (env : Env) (term : Option Value) (ty : Ty) : Except Failure Unit :=
  match ty with
  | .ref name _ =>
      match env.lookup name with
      | some meaning => inner env term meaning
      | none => .error (.unknownRef name env.snapshot)
  | .letIn bindings body _ => inner (env.extend bindings) term body
  | .basic sub _ =>
      if basicAccepts sub term then .ok () else .error (.mismatch ty term)
  | .literal expected _ =>
      match term with
      | some v => if v.agrees expected then .ok () else .error (.literalMismatch ty term)
      | none => .error (.literalMismatch ty term)
  | .union alts _ =>
      match tryEach (fun alt => inner env term alt) alts with
      | .accepted => .ok ()
      | .stopped failure => .error failure
      | .exhausted chain => .error (.unionExhausted ty term chain)
  | .struct fields _ =>
      match term with
      | some (.object members) =>
          every (fun (field : String × Ty) =>
            inner env (Entries.find? field.1 members) field.2) fields
      | _ => .error (.mismatch ty term)
  | .map key value _ =>
      match term with
      | some (.object members) =>
          every (memberCheck inner env key value) members
      | _ => .error (.mismatch ty term)
  | .list item _ =>
      match term with
      | some (.array items) =>
          every (fun v => inner env (some v) item) items
      | _ => .error (.mismatch ty term)
  | .tuple parts _ =>
      match term with
      | some (.array items) =>
          if items.length = parts.length then
            every (fun (pair : Value × Ty) => inner env (some pair.1) pair.2) (items.zip parts)
          else .error (.mismatch ty term)
      | _ => .error (.mismatch ty term)

/-- Checks a value with so many levels left. `limit` is the depth that a check
which runs out of levels reports. -/
def checkAt (limit : UInt64) : (levels : Nat) → Judge
  | 0, _, _, _ => .error (.recursionLimit limit)
  | levels + 1, env, term, ty => level (checkAt limit levels) env term ty

/-- Checks a value with terms down to depth `limit`; the whole term has depth 0. -/
def upTo (limit : UInt64) (env : Env) (term : Option Value) (ty : Ty) : Except Failure Unit :=
  checkAt limit (limit.toNat + 1) env term ty

end Check

/-- Checks go down to a greatest depth. -/
structure Checker where
  maxDepth : UInt64 := 512
  deriving DecidableEq, Repr

namespace Checker

/-- The depth that is tried first. -/
def shallow : UInt64 := 64

/-- The bytes of the work area of a check with all levels. -/
def workArea (checker : Checker) : Nat :=
  (checker.maxDepth.toNat + 1) * 16384 + 262144

/-- The bytes that the system can give to a work area. -/
def memory : Nat := Nat.pow 2 47

/-- Stands for the system's answer to the request for a work area for all levels. Whether the
area can be had is up to the system, and the request may fail for reasons that are not
modelled; here every area is taken to be given that fits into an address space. -/
def hasRoom (checker : Checker) : Bool :=
  checker.workArea ≤ memory

/-- What a checker makes of the runs of a check down to given depths: the first try, and
the run with all levels where the first try is given up. `room` is the system's answer to
the request for a work area. -/
def inRuns (room : Bool) (checker : Checker) (run : UInt64 → Except Failure Unit) :
    Except Failure Unit :=
  let first := min checker.maxDepth shallow
  match run first with
  | .ok _ => .ok ()
  | .error failure =>
      if failure.isFatal && first < checker.maxDepth then
        if room then run checker.maxDepth else .error (.recursionLimit shallow)
      else .error failure

/-- Checks a value, or a missing one, in an environment, given the system's answer. -/
def checkGiven (room : Bool) (checker : Checker) (env : Env) (term : Option Value) (ty : Ty) :
    Except Failure Unit :=
  checker.inRuns room fun limit => Check.upTo limit env term ty

/-- Checks a value, or a missing one, in an environment, with the answer `hasRoom`. -/
def checkIn (checker : Checker) (env : Env) (term : Option Value) (ty : Ty) :
    Except Failure Unit :=
  checker.checkGiven checker.hasRoom env term ty

/-- Checks a value, or a missing one, with no names in force. -/
def check (checker : Checker) (term : Option Value) (ty : Ty) : Except Failure Unit :=
  checker.checkIn .empty term ty

end Checker

end TypedJson
