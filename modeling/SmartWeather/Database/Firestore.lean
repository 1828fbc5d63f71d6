import SmartWeather.Swift.Runtime

/-!
# The Firestore collection as the app sees it

A document is an identifier and a map from field names to values; `asString` and `asInt` are the
casts `as? String` and `as? Int` of such a value.  `as? Int` bridges a number object, so it accepts
a boolean and a floating-point number that is exactly an integer as well.

A snapshot listener is called with a snapshot, whose `documentChanges` are the differences to the
state delivered before (`IsDiff`), or with an error and no snapshot.
-/

namespace SmartWeather

/-- A field value, as `data()` returns it. -/
inductive FieldValue
  | null
  | boolean (b : Bool)
  | integer (n : ℤ)
  | double (x : SwiftDouble)
  | string (s : String)
  | other

/-- The contents of a document. -/
abbrev Fields := String → Option FieldValue

structure Document where
  documentID : String
  data : Fields

inductive DocumentChangeType
  | added
  | modified
  | removed
  deriving DecidableEq

structure DocumentChange where
  type : DocumentChangeType
  document : Document

/-- The `added` change of a document. -/
def Document.added (d : Document) : DocumentChange := ⟨.added, d⟩

structure QuerySnapshot where
  documentChanges : List DocumentChange

/-- The cast `as? String`. -/
def asString : Option FieldValue → Option String
  | some (.string s) => some s
  | _ => none

/-- The cast `as? Int`. -/
def asInt : Option FieldValue → Option ℤ
  | some (.integer n) => some n
  | some (.boolean b) => some (if b then 1 else 0)
  | some (.double x) => x.exactInt 64
  | _ => none

/-! ### States of the collection and their differences -/

/-- A state of the collection: the contents of every document it has. -/
abbrev Collection := String → Option Fields

/-- The collection without documents. -/
def Collection.empty : Collection := fun _ => none

/-- `c` records what happened to its document between the states `old` and `new`. -/
def DocumentChange.Records (c : DocumentChange) (old new : Collection) : Prop :=
  match c.type with
  | .added => old c.document.documentID = none ∧
      new c.document.documentID = some c.document.data
  | .modified => (∃ f, old c.document.documentID = some f ∧ f ≠ c.document.data) ∧
      new c.document.documentID = some c.document.data
  | .removed => old c.document.documentID = some c.document.data ∧
      new c.document.documentID = none

/-- The changes are exactly the differences between `old` and `new`, one for each document. -/
structure IsDiff (old new : Collection) (changes : List DocumentChange) : Prop where
  nodup : (changes.map fun c => c.document.documentID).Nodup
  records : ∀ c ∈ changes, c.Records old new
  complete : ∀ i, old i ≠ new i → ∃ c ∈ changes, c.document.documentID = i

/-- A document without a change is the same in both states. -/
theorem IsDiff.eq_of_forall_ne {old new : Collection} {changes : List DocumentChange}
    (h : IsDiff old new changes) {i : String}
    (hi : ∀ c ∈ changes, c.document.documentID ≠ i) : old i = new i := by
  by_contra hne
  obtain ⟨c, hc, hci⟩ := h.complete i hne
  exact hi c hc hci

theorem isDiff_refl (c : Collection) : IsDiff c c [] :=
  ⟨List.nodup_nil, fun _ h => (List.not_mem_nil h).elim, fun _ h => absurd rfl h⟩

/-- One more document is changed. -/
theorem IsDiff.snoc {old new : Collection} {changes : List DocumentChange}
    (h : IsDiff old new changes) {c : DocumentChange} {x : Option Fields}
    (hfresh : ∀ c' ∈ changes, c'.document.documentID ≠ c.document.documentID)
    (hc : c.Records old (Function.update new c.document.documentID x)) :
    IsDiff old (Function.update new c.document.documentID x) (changes ++ [c]) where
  nodup := by
    rw [List.map_append, List.nodup_append']
    refine ⟨h.nodup, List.nodup_singleton _, fun i hi hi' => ?_⟩
    obtain ⟨c', hc', rfl⟩ := List.mem_map.1 hi
    exact hfresh c' hc' (List.mem_singleton.1 hi')
  records c' hc' := by
    rcases List.mem_append.1 hc' with hc' | hc'
    · have hrecords := h.records c' hc'
      unfold DocumentChange.Records at hrecords ⊢
      rwa [Function.update_of_ne (hfresh c' hc')]
    · rwa [List.mem_singleton.1 hc']
  complete i hi := by
    by_cases hid : i = c.document.documentID
    · exact ⟨c, List.mem_append_right _ (List.mem_singleton_self c), hid.symm⟩
    · rw [Function.update_of_ne hid] at hi
      obtain ⟨c', hc', hid'⟩ := h.complete i hi
      exact ⟨c', List.mem_append_left _ hc', hid'⟩

end SmartWeather
