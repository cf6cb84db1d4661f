import FieldExtract.Proofs.Decoding

/-!
# Loading on demand, whatever is replied

A loader may refuse, or reply with a buffer of any length, and differently each time. Of the calls
that need a buffer, each up to the first usable reply loads once and passes on what is wrong with
its reply; that reply is kept, and from then on nothing is loaded. The two buffers of a result do
this each on its own, since an accessor needs only one of them.
-/

namespace FieldExtract

def Journal.Counts.loads (c : Journal.Counts) : BufferKind → Nat
  | .values => c.valueLoads
  | .mask => c.maskLoads

section

variable {α β : Type} {kind : BufferKind} {expected t : Nat}
  {reply : Nat → Except EngineError (List α)} {b : Buffer α}

def Usable (expected : Nat) (reply : Except EngineError (List α)) : Prop :=
  ∃ xs, reply = .ok xs ∧ xs.length = expected

/-- The reply at this position is the first that can be kept. -/
structure FirstUsable (expected : Nat) (reply : Nat → Except EngineError (List α)) (f : Nat)
    (xs : List α) : Prop where
  reply_eq : reply f = .ok xs
  length_eq : xs.length = expected
  before : ∀ i < f, ¬Usable expected (reply i)

theorem FirstUsable.usable {f : Nat} {xs : List α} (h : FirstUsable expected reply f xs) :
    Usable expected (reply f) :=
  ⟨xs, h.reply_eq, h.length_eq⟩

theorem FirstUsable.unique {f g : Nat} {xs ys : List α} (h : FirstUsable expected reply f xs)
    (hOther : FirstUsable expected reply g ys) : f = g ∧ xs = ys := by
  rcases Nat.lt_trichotomy f g with hLt | rfl | hLt
  · exact absurd h.usable (hOther.before f hLt)
  · exact ⟨rfl, Except.ok.inj (h.reply_eq.symm.trans hOther.reply_eq)⟩
  · exact absurd hOther.usable (h.before g hLt)

namespace Buffer

/-- The buffer has been loaded just once, as the engine and the journal see it. -/
structure LoadsOnce (kind : BufferKind) (b : Buffer α) (o : Outcome (Buffer α) β) : Prop where
  loader : o.state.loader.loads = b.loader.loads + 1
  journal : o.journal.counts.loads kind = 1

/-- What the call at position `t` among those that need a buffer does, and `view` of it. -/
structure Serial (kind : BufferKind) (expected : Nat) (reply : Nat → Except EngineError (List α))
    (t : Nat) (view : List α → β) (b : Buffer α) (o : Outcome (Buffer α) (Except DecodeError β)) :
    Prop where
  refused : (∀ i ≤ t, ¬Usable expected (reply i)) → ∀ e, reply t = .error e →
    o.answer = .error (.engine e) ∧ o.state.isLoaded = false ∧ b.LoadsOnce kind o
  misfit : (∀ i ≤ t, ¬Usable expected (reply i)) → ∀ xs, reply t = .ok xs →
    o.answer = .error (.shape ⟨kind, expected, xs.length⟩) ∧ o.state.isLoaded = false ∧
      b.LoadsOnce kind o
  kept : ∀ xs, FirstUsable expected reply t xs →
    o.answer = .ok (view xs) ∧ o.state.isLoaded = true ∧ b.LoadsOnce kind o
  again : ∀ f < t, ∀ xs, FirstUsable expected reply f xs →
    o.answer = .ok (view xs) ∧ o.state = b ∧ o.journal = []

/-- The buffer after so many calls that needed it. -/
structure Asked (expected : Nat) (reply : Nat → Except EngineError (List α)) (t : Nat)
    (b : Buffer α) : Prop where
  reply_eq : b.loader.reply = reply
  progress : (b.loaded = none ∧ b.loader.loads = t ∧ ∀ i < t, ¬Usable expected (reply i)) ∨
    ∃ f < t, ∃ xs, b.loaded = some xs ∧ FirstUsable expected reply f xs

theorem fetch_of_empty (hEmpty : b.loaded = none) :
    b.fetch kind expected =
      match b.loader.reply b.loader.loads with
      | .error e => ⟨.error (.engine e), ⟨b.loader.load.2, none⟩, [.loaded kind]⟩
      | .ok xs =>
        if xs.length = expected then ⟨.ok xs, ⟨b.loader.load.2, some xs⟩, [.loaded kind]⟩
        else
          ⟨.error (.shape ⟨kind, expected, xs.length⟩), ⟨b.loader.load.2, none⟩,
            [.loaded kind, .reported (.shapeMismatch ⟨kind, expected, xs.length⟩)]⟩ := by
  rw [fetch, hEmpty, Loader.load]
  cases b.loader.reply b.loader.loads with
  | error e => rfl
  | ok xs =>
    by_cases hLength : xs.length = expected
    · simp only [lengthFault, hLength, if_true]
    · simp only [lengthFault, hLength, Ne.symm hLength, if_false]

theorem loads_singleton (kind : BufferKind) :
    (Journal.counts [.loaded kind]).loads kind = 1 := by
  cases kind <;> rfl

theorem loads_reported (kind : BufferKind) (e : Event) :
    (Journal.counts [.loaded kind, .reported e]).loads kind = 1 := by
  cases kind <;> rfl

theorem fetch_journal (kind : BufferKind) (expected : Nat) (b : Buffer α) :
    (b.fetch kind expected).journal = [] ∨ (b.fetch kind expected).journal = [.loaded kind] ∨
      ∃ e, (b.fetch kind expected).journal = [.loaded kind, .reported e] := by
  cases hLoaded : b.loaded with
  | some xs => exact .inl (by rw [fetch_of_loaded hLoaded])
  | none =>
    rw [fetch_of_empty hLoaded]
    cases b.loader.reply b.loader.loads with
    | error e => exact .inr (.inl rfl)
    | ok xs =>
      by_cases hLength : xs.length = expected
      · exact .inr (.inl (by simp only [hLength, if_true]))
      · exact .inr (.inr ⟨_, by simp only [hLength, if_false]; rfl⟩)

theorem maskLoads_fetch_values (expected : Nat) (b : Buffer α) :
    (b.fetch .values expected).journal.counts.maskLoads = 0 := by
  rcases b.fetch_journal .values expected with h | h | ⟨e, h⟩ <;> rw [h] <;> rfl

theorem valueLoads_fetch_mask (expected : Nat) (b : Buffer α) :
    (b.fetch .mask expected).journal.counts.valueLoads = 0 := by
  rcases b.fetch_journal .mask expected with h | h | ⟨e, h⟩ <;> rw [h] <;> rfl

theorem asked_zero (reply : Nat → Except EngineError (List α)) (expected : Nat) :
    Asked expected reply 0 ⟨⟨reply, 0⟩, none⟩ :=
  ⟨rfl, .inl ⟨rfl, rfl, fun i hi => absurd hi (Nat.not_lt_zero i)⟩⟩

theorem Asked.succ (h : b.Asked expected reply t) (kind : BufferKind) :
    (b.fetch kind expected).state.Asked expected reply (t + 1) := by
  rcases h.progress with ⟨hEmpty, hLoads, hBefore⟩ | ⟨f, hf, xs, hLoaded, hFirst⟩
  · have hUntil : ¬Usable expected (reply t) → ∀ i < t + 1, ¬Usable expected (reply i) := by
      intro hNow i hi
      rcases Nat.lt_or_eq_of_le (Nat.le_of_lt_succ hi) with hLt | rfl
      · exact hBefore i hLt
      · exact hNow
    rw [fetch_of_empty hEmpty, h.reply_eq, hLoads]
    cases hReply : reply t with
    | error e =>
      refine ⟨h.reply_eq, .inl ⟨rfl, congrArg Nat.succ hLoads, hUntil ?_⟩⟩
      rintro ⟨xs, hOk, _⟩
      cases hReply.symm.trans hOk
    | ok xs =>
      by_cases hLength : xs.length = expected
      · simp only [hLength, if_true]
        exact ⟨h.reply_eq, .inr ⟨t, Nat.lt_succ_self t, xs, rfl, hReply, hLength, hBefore⟩⟩
      · simp only [hLength, if_false]
        refine ⟨h.reply_eq, .inl ⟨rfl, congrArg Nat.succ hLoads, hUntil ?_⟩⟩
        rintro ⟨ys, hOk, hFits⟩
        cases hReply.symm.trans hOk
        exact hLength hFits
  · rw [fetch_of_loaded hLoaded]
    exact ⟨h.reply_eq, .inr ⟨f, Nat.lt_succ_of_lt hf, xs, hLoaded, hFirst⟩⟩

/-- As long as no reply has been usable, the next one decides. -/
theorem Asked.loaded_eq_none (h : b.Asked expected reply t)
    (hBefore : ∀ i < t, ¬Usable expected (reply i)) : b.loaded = none ∧ b.loader.loads = t := by
  rcases h.progress with ⟨hEmpty, hLoads, _⟩ | ⟨f, hf, _, _, hFirst⟩
  · exact ⟨hEmpty, hLoads⟩
  · exact absurd hFirst.usable (hBefore f hf)

theorem Asked.loaded_eq_some {f : Nat} {xs : List α} (h : b.Asked expected reply t) (hf : f < t)
    (hFirst : FirstUsable expected reply f xs) : b.loaded = some xs := by
  rcases h.progress with ⟨_, _, hBefore⟩ | ⟨_, _, _, hLoaded, hOther⟩
  · exact absurd hFirst.usable (hBefore f hf)
  · rw [hLoaded, (hFirst.unique hOther).2]

theorem Asked.serial (h : b.Asked expected reply t) (kind : BufferKind) (view : List α → β) :
    b.Serial kind expected reply t view ((b.fetch kind expected).map (Except.map view)) where
  refused hNone e hReply := by
    obtain ⟨hEmpty, hLoads⟩ := h.loaded_eq_none fun i hi => hNone i (Nat.le_of_lt hi)
    rw [fetch_of_empty hEmpty, h.reply_eq, hLoads, hReply]
    exact ⟨rfl, rfl, rfl, loads_singleton kind⟩
  misfit hNone xs hReply := by
    obtain ⟨hEmpty, hLoads⟩ := h.loaded_eq_none fun i hi => hNone i (Nat.le_of_lt hi)
    have hLength : xs.length ≠ expected := fun hFits =>
      hNone t (Nat.le_refl t) ⟨xs, hReply, hFits⟩
    rw [fetch_of_empty hEmpty, h.reply_eq, hLoads, hReply]
    simp only [hLength, if_false]
    exact ⟨rfl, rfl, rfl, loads_reported kind _⟩
  kept xs hFirst := by
    obtain ⟨hEmpty, hLoads⟩ := h.loaded_eq_none hFirst.before
    rw [fetch_of_empty hEmpty, h.reply_eq, hLoads, hFirst.reply_eq]
    simp only [hFirst.length_eq, if_true]
    exact ⟨rfl, rfl, rfl, loads_singleton kind⟩
  again f hf xs hFirst := by
    rw [fetch_of_loaded (h.loaded_eq_some hf hFirst)]
    exact ⟨rfl, rfl, rfl⟩

end Buffer

end

theorem Outcome.map_map {σ α β γ ε : Type} (o : Outcome σ (Except ε α)) (f : α → β)
    (g : β → γ) :
    (o.map (Except.map f)).map (Except.map g) = o.map (Except.map fun x => g (f x)) := by
  unfold map
  cases o.answer <;> rfl

/-- Both buffers with their replies in the order in which they are loaded. -/
def Handle.ofReplies (values : Nat → Except EngineError (List Sample))
    (mask : Nat → Except EngineError (List UInt64)) : Handle :=
  ⟨⟨values, 0⟩, ⟨mask, 0⟩⟩

namespace Result

/-- What an accessor makes of the one buffer that it needs. -/
inductive View
  | ofSamples (read : List Sample → Reading)
  | ofWords (read : List UInt64 → Reading)

namespace Accessor

/-- Pieces that are looked at in place and pieces that are copied are one reading. -/
def view (shape : Shape) : Accessor → View
  | .flatValues => .ofSamples .samples
  | .rangeValues => .ofSamples fun xs => .sampleLists (pieces shape.lens xs)
  | .flatMasks => .ofWords .words
  | .rangeMasks => .ofWords fun ws => .wordLists (pieces shape.maskWords ws)
  | .boolMasks => .ofWords fun ws =>
    .bitLists ((maskParts shape ws).map fun p => BitMask.unpack p.1 p.2)
  | .countValid => .ofWords fun ws =>
    .count (((maskParts shape ws).map fun p => BitMask.countSet p.1 p.2).foldr (· + ·) 0)

def buffer : Accessor → BufferKind
  | .flatValues | .rangeValues => .values
  | .flatMasks | .rangeMasks | .boolMasks | .countValid => .mask

end Accessor

theorem access_eq (r : Result) (a : Accessor) :
    r.access a =
      match a.view r.shape with
      | .ofSamples read => r.flatValues.map (Except.map read)
      | .ofWords read => r.flatMasks.map (Except.map read) := by
  cases a with
  | flatValues | flatMasks => rfl
  | rangeValues | rangeMasks | countValid => exact Outcome.map_map _ _ _
  | boolMasks =>
    rw [access, boolMasks_eq]
    exact Outcome.map_map _ _ _

/-- How often each buffer has been asked for decides where the two of them are. -/
structure Asked (shape : Shape) (values : Nat → Except EngineError (List Sample))
    (mask : Nat → Except EngineError (List UInt64)) (calls : List BufferKind) (r : Result) :
    Prop where
  shape_eq : r.shape = shape
  values : r.values.Asked shape.total values (calls.count .values)
  mask : r.mask.Asked shape.totalMaskWords mask (calls.count .mask)

section

variable {shape : Shape} {values : Nat → Except EngineError (List Sample)}
  {mask : Nat → Except EngineError (List UInt64)} {calls : List BufferKind} {r : Result}

theorem Asked.access (h : r.Asked shape values mask calls) (a : Accessor) :
    (r.access a).state.Asked shape values mask (calls ++ [a.buffer]) := by
  have hState : (r.access a).state =
      match a.buffer with
      | .values => r.flatValues.state
      | .mask => r.flatMasks.state := by
    rw [access_eq]
    cases a <;> rfl
  rw [hState]
  cases a.buffer with
  | values =>
    refine ⟨h.shape_eq, ?_, ?_⟩
    · rw [List.count_append]
      exact h.shape_eq ▸ h.values.succ .values
    · rw [List.count_append]
      exact h.mask
  | mask =>
    refine ⟨h.shape_eq, ?_, ?_⟩
    · rw [List.count_append]
      exact h.values
    · rw [List.count_append]
      exact h.shape_eq ▸ h.mask.succ .mask

theorem Asked.after (h : r.Asked shape values mask calls) (history : List Accessor) :
    (r.after history).Asked shape values mask (calls ++ history.map Accessor.buffer) := by
  induction history generalizing r calls with
  | nil => rwa [List.map_nil, List.append_nil]
  | cons a history ih =>
    have hRest := ih (h.access a)
    rwa [List.append_assoc] at hRest

theorem asked_ofReplies (shape : Shape) (values : Nat → Except EngineError (List Sample))
    (mask : Nat → Except EngineError (List UInt64)) (history : List Accessor) :
    ((ofHandle (.ofReplies values mask) shape).after history).Asked shape values mask
      (history.map Accessor.buffer) := by
  have hStart : (ofHandle (.ofReplies values mask) shape).Asked shape values mask [] :=
    ⟨rfl, Buffer.asked_zero values _, Buffer.asked_zero mask _⟩
  simpa using hStart.after history

end

/-- Any access, after any others, to a result whose buffers are replied to in any way. -/
theorem access_over_replies (shape : Shape) (values : Nat → Except EngineError (List Sample))
    (mask : Nat → Except EngineError (List UInt64)) (history : List Accessor) (a : Accessor) :
    let r := (ofHandle (.ofReplies values mask) shape).after history
    let o := r.access a
    let calls := history.map Accessor.buffer
    match a.view shape with
    | .ofSamples read =>
      r.values.Serial .values shape.total values (calls.count .values) read
          ⟨o.answer, o.state.values, o.journal⟩ ∧
        o.state.mask = r.mask ∧ o.journal.counts.maskLoads = 0
    | .ofWords read =>
      r.mask.Serial .mask shape.totalMaskWords mask (calls.count .mask) read
          ⟨o.answer, o.state.mask, o.journal⟩ ∧
        o.state.values = r.values ∧ o.journal.counts.valueLoads = 0 := by
  intro r o calls
  have hAsked : r.Asked shape values mask calls := asked_ofReplies shape values mask history
  have hAccess : o = _ := access_eq r a
  rw [hAsked.shape_eq] at hAccess
  cases hView : a.view shape with
  | ofSamples read =>
    have hSerial := hAsked.values.serial .values read
    rw [← hAsked.shape_eq] at hSerial ⊢
    rw [hAccess, hView]
    exact ⟨hSerial, rfl, r.values.maskLoads_fetch_values _⟩
  | ofWords read =>
    have hSerial := hAsked.mask.serial .mask read
    rw [← hAsked.shape_eq] at hSerial ⊢
    rw [hAccess, hView]
    exact ⟨hSerial, rfl, r.mask.valueLoads_fetch_mask _⟩

/-- A refusal and a reply of the wrong length, between which the mask is read; the third reply is
the one that is kept. -/
theorem access_over_replies_of_third :
    let e := EngineError.ofStatus "load_values" .failure "busy"
    let values : Nat → Except EngineError (List Sample)
      | 0 => .error e
      | 1 => .ok []
      | n => .ok [⟨UInt64.ofNat n⟩]
    let r := (ofHandle (.ofReplies values fun _ => .ok [1]) ⟨[1]⟩).after
      [.flatValues, .countValid, .rangeValues]
    FirstUsable 1 values 2 [⟨2⟩] ∧
      (r.access .rangeValues).answer = .ok (.sampleLists [[⟨2⟩]]) ∧
      r.values.LoadsOnce .values (⟨(r.access .rangeValues).answer,
        (r.access .rangeValues).state.values, (r.access .rangeValues).journal⟩ :
          Outcome (Buffer Sample) (Except DecodeError Reading)) := by
  intro e values r
  have hFirst : FirstUsable 1 values 2 [⟨2⟩] := by
    refine ⟨rfl, rfl, fun i hi => ?_⟩
    rintro ⟨xs, hReply, hLength⟩
    have hCases : i = 0 ∨ i = 1 := by omega
    rcases hCases with rfl | rfl
    · cases hReply
    · cases hReply
      cases hLength
  have hSerial := (access_over_replies ⟨[1]⟩ values (fun _ => .ok [1])
    [.flatValues, .countValid, .rangeValues] .rangeValues).1
  obtain ⟨hAnswer, _, hOnce⟩ := hSerial.kept [⟨2⟩] hFirst
  exact ⟨hFirst, hAnswer, hOnce⟩

end Result

end FieldExtract
