import FieldExtract.Client
import FieldExtract.Proofs.JsonRoundTrip
import FieldExtract.Proofs.MapLookup

/-!
# Contexts laid over one another

What a caller says about a call stands first and stays as it is; behind it come the defaults for
whatever the caller has not said, in their own order. Since nothing is moved and nothing is said
twice, several contexts can be laid over one another in any grouping. The engine receives the
outcome as one JSON object without blanks, from which the entries are read back in that order.
-/

namespace FieldExtract

namespace OrderedMap

variable {α β : Type} [DecidableEq α]

theorem insertIfNew_of_mem {m : OrderedMap α β} {name : α} (h : name ∈ m.names) (value : β) :
    m.insertIfNew name value = m :=
  if_pos (decide_eq_true h)

theorem insertIfNew_of_not_mem {m : OrderedMap α β} {name : α} (h : name ∉ m.names) (value : β) :
    m.insertIfNew name value = m.insert name value :=
  if_neg fun hPresent => h (of_decide_eq_true hPresent)

/-- By induction on the entries to come; those that go in have names unlike the ones behind them. -/
theorem entries_foldl_insertIfNew (m : OrderedMap α β) {entries : List (α × β)}
    (h : (entries.map Prod.fst).Nodup) :
    (entries.foldl (fun m e => m.insertIfNew e.1 e.2) m).entries =
      m.entries ++ entries.filter fun e => e.1 ∉ m.names := by
  induction entries generalizing m with
  | nil => exact (List.append_nil _).symm
  | cons e rest ih =>
    obtain ⟨hHead, hRest⟩ := List.nodup_cons.mp h
    rw [List.foldl_cons, ih _ hRest]
    by_cases hMem : e.1 ∈ m.names
    · rw [insertIfNew_of_mem hMem, List.filter_cons_of_neg (by simpa using hMem)]
    · have hBehind : (rest.filter fun f => f.1 ∉ (m.insert e.1 e.2).names) =
          rest.filter fun f => f.1 ∉ m.names := by
        apply List.filter_congr
        intro f hf
        have hOther : f.1 ≠ e.1 := fun hSame => hHead (hSame ▸ List.mem_map_of_mem hf)
        simp only [names_insert_of_not_mem hMem, List.mem_append, List.mem_singleton, hOther,
          or_false]
      rw [insertIfNew_of_not_mem hMem, hBehind, entries_insert_of_not_mem hMem,
        List.filter_cons_of_pos (by simpa using hMem), List.append_assoc]
      rfl

end OrderedMap

namespace Context

theorem ext_entries {a b : Context} (h : a.entries.entries = b.entries.entries) : a = b := by
  obtain ⟨m⟩ := a
  obtain ⟨n⟩ := b
  exact congrArg Context.mk (OrderedMap.ext h)

variable {own base : Context}

/-- The entries of the one as they are, and behind them those of the other under new names. -/
structure Overlays (own base merged : Context) : Prop where
  entries_eq : merged.entries.entries =
    own.entries.entries ++ base.entries.entries.filter fun e => e.1 ∉ own.entries.names
  get?_eq : ∀ name, merged.get? name = (own.get? name).or (base.get? name)

theorem entries_mergedOver (own base : Context) :
    (own.mergedOver base).entries.entries =
      own.entries.entries ++ base.entries.entries.filter fun e => e.1 ∉ own.entries.names :=
  own.entries.entries_foldl_insertIfNew base.entries.distinct

theorem names_mergedOver (own base : Context) :
    (own.mergedOver base).entries.names =
      own.entries.names ++ base.entries.names.filter fun name => name ∉ own.entries.names := by
  rw [OrderedMap.names, entries_mergedOver, List.map_append, OrderedMap.names, OrderedMap.names,
    List.filter_map]
  rfl

theorem mem_names_mergedOver {name : String} :
    name ∈ (own.mergedOver base).entries.names ↔
      name ∈ own.entries.names ∨ name ∈ base.entries.names := by
  rw [names_mergedOver, List.mem_append, List.mem_filter, decide_eq_true_eq]
  tauto

theorem get?_mergedOver (own base : Context) (name : String) :
    (own.mergedOver base).get? name = (own.get? name).or (base.get? name) := by
  apply Option.ext
  intro value
  rw [Option.or_eq_some_iff]
  simp only [get?, OrderedMap.get?_eq_some_iff, OrderedMap.get?_eq_none_iff, entries_mergedOver,
    List.mem_append, List.mem_filter, decide_eq_true_eq]
  rw [and_comm (a := name ∉ own.entries.names)]

theorem overlays_mergedOver (own base : Context) : Overlays own base (own.mergedOver base) :=
  ⟨entries_mergedOver own base, get?_mergedOver own base⟩

theorem mergedOver_assoc (a b d : Context) :
    (a.mergedOver b).mergedOver d = a.mergedOver (b.mergedOver d) := by
  apply ext_entries
  simp only [entries_mergedOver, List.filter_append, List.filter_filter, List.append_assoc]
  congr 2
  apply List.filter_congr
  intro e _
  simp only [mem_names_mergedOver, not_or, Bool.decide_and]

theorem mergedOver_self (a : Context) : a.mergedOver a = a := by
  have hNone : (a.entries.entries.filter fun e => e.1 ∉ a.entries.names) = [] := by
    rw [List.filter_eq_nil_iff]
    intro e he
    have hName : e.1 ∈ a.entries.names := List.mem_map_of_mem he
    simpa using hName
  apply ext_entries
  rw [entries_mergedOver, hNone, List.append_nil]

/-- One member of a compact JSON object. -/
def memberText (e : String × String) : String :=
  String.ofList (Json.literal e.1) ++ ":" ++ String.ofList (Json.literal e.2)

def reader : Json.Reader (List (String × String)) :=
  Json.enclosed '\x7b' '\x7d' (Json.member Json.readerOfLiteral)

/-- The text is the JSON object of these entries, in this order and without blanks. -/
structure IsObject (text : String) (entries : List (String × String)) : Prop where
  text_eq : text = "\x7b" ++ ",".intercalate (entries.map memberText) ++ "\x7d"
  reads : Json.readWhole reader text = some entries

theorem isObject_toJson (c : Context) : IsObject c.toJson c.entries.entries where
  text_eq := by
    have hMember : String.toList ∘ memberText =
        fun e => Json.literal e.1 ++ ':' :: Json.literal e.2 := by
      funext e
      simp [memberText]
    rw [toJson, Json.object, Json.enclose, List.map_map, ← String.toList_inj]
    simp only [String.toList_ofList, String.toList_append, String.toList_intercalate, List.map_map,
      hMember]
    rfl
  reads := by
    have hObject : reader.Undoes
        (Json.object (c.entries.entries.map fun e => (e.1, Json.literal e.2)))
        c.entries.entries := by
      rw [Json.object, List.map_map]
      exact Json.undoes_enclosed (by decide) (.inr rfl) fun e _ =>
        Json.undoes_member (Json.undoes_literal e.2) e.1
    exact hObject.readWhole_eq

end Context

namespace Client

/-- What is said about a call where its caller says nothing. -/
def defaultEntries (c : Client) (version action : String) : List (String × String) :=
  [("source", c.settings.source), ("action", action), ("client_version", Context.clientVersion),
    ("engine_version", version), ("user", c.identity.user), ("hostname", c.identity.host)]

theorem entries_defaults (c : Client) (version action : String) :
    (Context.defaults c.settings.source action version c.identity).entries.entries =
      c.defaultEntries version action := by
  have hNames :
      ["source", "action", "client_version", "engine_version", "user", "hostname"].Nodup := by
    decide
  exact OrderedMap.insertMany_of_distinct OrderedMap.empty _ hNames

/-- The caller's entries, and the defaults under other names. -/
def sentEntries (c : Client) (version action : String) (own : Option Context) :
    List (String × String) :=
  let given := (own.map fun o => o.entries.entries).getD []
  given ++ (c.defaultEntries version action).filter fun e => e.1 ∉ given.map Prod.fst

theorem isObject_contextJson (c : Client) (version action : String) (own : Option Context) :
    Context.IsObject (c.contextJson version action own) (c.sentEntries version action own) := by
  cases own with
  | none =>
    have hEntries : c.sentEntries version action none = c.defaultEntries version action := by
      simp [sentEntries]
    rw [hEntries, ← entries_defaults]
    exact Context.isObject_toJson _
  | some o =>
    have hEntries : c.sentEntries version action (some o) =
        (o.mergedOver
          (Context.defaults c.settings.source action version c.identity)).entries.entries := by
      rw [Context.entries_mergedOver, entries_defaults]
      rfl
    rw [hEntries]
    exact Context.isObject_toJson _

/-- Contexts are laid over one another entry by entry and in any grouping. What is sent about a call
is the object of the caller's entries, if there are any, and of the defaults that they leave. -/
theorem context_layers (c : Client) (version action : String) :
    (∀ own base : Context, Context.Overlays own base (own.mergedOver base)) ∧
    (∀ a b d : Context, (a.mergedOver b).mergedOver d = a.mergedOver (b.mergedOver d)) ∧
    (∀ a : Context, a.mergedOver a = a) ∧
    ∀ own : Option Context,
      Context.IsObject (c.contextJson version action own) (c.sentEntries version action own) :=
  ⟨Context.overlays_mergedOver, Context.mergedOver_assoc, Context.mergedOver_self,
    c.isObject_contextJson version action⟩

end Client

end FieldExtract
