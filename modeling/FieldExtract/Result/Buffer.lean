import FieldExtract.Journal

/-!
# Buffers loaded on demand

An engine may be asked for a buffer any number of times and may answer differently each time. A
buffer keeps the first answer that has the expected length and asks no more; a refusal or a wrong
length leaves it empty.
-/

namespace FieldExtract

structure Loader (α : Type) where
  reply : Nat → Except EngineError (List α)
  loads : Nat

namespace Loader

variable {α : Type}

def load (l : Loader α) : Except EngineError (List α) × Loader α :=
  (l.reply l.loads, { l with loads := l.loads + 1 })

def constant (xs : List α) : Loader α := ⟨fun _ => .ok xs, 0⟩

/-- The replies in turn, the last one from then on. -/
def ofReplies (first : Except EngineError (List α)) (more : List (Except EngineError (List α))) :
    Loader α :=
  ⟨fun n => ((first :: more)[n]?).getD (more.getLast?.getD first), 0⟩

end Loader

def lengthFault (buffer : BufferKind) (expected actual : Nat) : Option ShapeMismatch :=
  if expected = actual then none else some ⟨buffer, expected, actual⟩

structure Buffer (α : Type) where
  loader : Loader α
  loaded : Option (List α)

namespace Buffer

variable {α : Type}

def isLoaded (b : Buffer α) : Bool := b.loaded.isSome

def fetch (kind : BufferKind) (expected : Nat) (b : Buffer α) :
    Outcome (Buffer α) (Except DecodeError (List α)) :=
  match b.loaded with
  | some xs => ⟨.ok xs, b, []⟩
  | none =>
    match b.loader.load with
    | (.error e, loader) => ⟨.error (.engine e), { b with loader := loader }, [.loaded kind]⟩
    | (.ok xs, loader) =>
      match lengthFault kind expected xs.length with
      | some m =>
        ⟨.error (.shape m), { b with loader := loader },
          [.loaded kind, .reported (.shapeMismatch m)]⟩
      | none => ⟨.ok xs, ⟨loader, some xs⟩, [.loaded kind]⟩

theorem fetch_of_loaded {kind : BufferKind} {expected : Nat} {b : Buffer α} {xs : List α}
    (h : b.loaded = some xs) : b.fetch kind expected = ⟨.ok xs, b, []⟩ := by
  rw [fetch, h]

end Buffer

end FieldExtract
