import FieldExtract.Result.Buffer
import FieldExtract.Sample

/-!
# Results of extraction requests

A result holds two buffers: the samples of all ranges in order, and their validity mask, which
starts on a new word for each range. Both are loaded when first needed, checked against the shape
of the request and cut back into one piece for each range.
-/

namespace FieldExtract

/-- What an engine holds for one resolved request. -/
structure Handle where
  values : Loader Sample
  mask : Loader UInt64

def Handle.ofBuffers (values : List Sample) (mask : List UInt64) : Handle :=
  ⟨Loader.constant values, Loader.constant mask⟩

/-- Both buffers as they are, the samples loaded first. -/
def Handle.load (h : Handle) :
    Outcome Handle (Except EngineError (List Sample × List UInt64)) :=
  match h.values.load with
  | (.error e, values) => ⟨.error e, { h with values := values }, [.loaded .values]⟩
  | (.ok samples, values) =>
    match h.mask.load with
    | (.error e, mask) => ⟨.error e, ⟨values, mask⟩, [.loaded .values, .loaded .mask]⟩
    | (.ok words, mask) =>
      ⟨.ok (samples, words), ⟨values, mask⟩, [.loaded .values, .loaded .mask]⟩

structure Result where
  shape : Shape
  values : Buffer Sample
  mask : Buffer UInt64

namespace Result

def ofHandle (h : Handle) (shape : Shape) : Result := ⟨shape, ⟨h.values, none⟩, ⟨h.mask, none⟩⟩

def flatValues (r : Result) : Outcome Result (Except DecodeError (List Sample)) :=
  let o := r.values.fetch .values r.shape.total
  ⟨o.answer, { r with values := o.state }, o.journal⟩

def flatMasks (r : Result) : Outcome Result (Except DecodeError (List UInt64)) :=
  let o := r.mask.fetch .mask r.shape.totalMaskWords
  ⟨o.answer, { r with mask := o.state }, o.journal⟩

def rangeValues (r : Result) : Outcome Result (Except DecodeError (List (List Sample))) :=
  r.flatValues.map (Except.map (pieces r.shape.lens))

def rangeMasks (r : Result) : Outcome Result (Except DecodeError (List (List UInt64))) :=
  r.flatMasks.map (Except.map (pieces r.shape.maskWords))

/-- The mask words of each range with the length of that range. -/
def maskParts (shape : Shape) (words : List UInt64) : List (List UInt64 × Nat) :=
  (pieces shape.maskWords words).zip shape.lens

def boolMasks (r : Result) : Outcome Result (Except DecodeError (List (List Bool))) :=
  let o := r.flatMasks
  match o.answer with
  | .error e => ⟨.error e, o.state, o.journal⟩
  | .ok words =>
    let parts := maskParts r.shape words
    match lengthFault .mask r.shape.total ((parts.map Prod.snd).foldr (· + ·) 0) with
    | some m => ⟨.error (.shape m), o.state, o.journal ++ [.reported (.shapeMismatch m)]⟩
    | none => ⟨.ok (parts.map fun p => BitMask.unpack p.1 p.2), o.state, o.journal⟩

def countValid (r : Result) : Outcome Result (Except DecodeError Nat) :=
  r.flatMasks.map (Except.map fun words =>
    ((maskParts r.shape words).map fun p => BitMask.countSet p.1 p.2).foldr (· + ·) 0)

def describe (r : Result) : String :=
  "ExtractionResult \x7b shape: Shape([" ++ ", ".intercalate (r.shape.lens.map toString) ++
    "]), values_loaded: " ++ toString r.values.isLoaded ++ ", mask_loaded: " ++
    toString r.mask.isLoaded ++ ", .. \x7d"

inductive Accessor
  | flatValues
  | flatMasks
  | rangeValues
  | rangeMasks
  | boolMasks
  | countValid
deriving DecidableEq

inductive Reading
  | samples (xs : List Sample)
  | words (ws : List UInt64)
  | sampleLists (xss : List (List Sample))
  | wordLists (wss : List (List UInt64))
  | bitLists (bss : List (List Bool))
  | count (n : Nat)

def access (r : Result) : Accessor → Outcome Result (Except DecodeError Reading)
  | .flatValues => r.flatValues.map (Except.map .samples)
  | .flatMasks => r.flatMasks.map (Except.map .words)
  | .rangeValues => r.rangeValues.map (Except.map .sampleLists)
  | .rangeMasks => r.rangeMasks.map (Except.map .wordLists)
  | .boolMasks => r.boolMasks.map (Except.map .bitLists)
  | .countValid => r.countValid.map (Except.map .count)

end Result

end FieldExtract
