import Bmac.Base.Json
import Bmac.Base.Split
import Bmac.Core.Dict

/-!
# JSON values, written with their keys in order

Values as a tree, whatever the numbers are. `Writer.write` writes one without blanks and with the keys of
every object in order, and `readValue` reads a text that nests at most so many arrays and objects. What
is written is read as the value with its keys in order (`read_write`), so two values have one text if and
only if they differ in the order of keys (`write_eq_iff`).
-/

namespace Bmac.Base

open Bmac.Core

inductive JsonValue (N : Type) where
  | null
  | bool (b : Bool)
  | number (n : N)
  | string (text : String)
  | array (items : List (JsonValue N))
  | object (members : List (String × JsonValue N))

namespace JsonValue

variable {N : Type}

/-- Induction on what an array or an object holds. -/
@[elab_as_elim]
theorem induct {P : JsonValue N → Prop} (null : P .null) (bool : ∀ b, P (.bool b))
    (number : ∀ n, P (.number n)) (string : ∀ s, P (.string s))
    (array : ∀ items, (∀ v ∈ items, P v) → P (.array items))
    (object : ∀ members, (∀ m ∈ members, P m.2) → P (.object members)) : ∀ v, P v := by
  refine @JsonValue.rec N P (fun items => ∀ v ∈ items, P v) (fun members => ∀ m ∈ members, P m.2)
    (fun m => P m.2) null bool number string array object ?_ ?_ ?_ ?_ ?_
  · exact List.forall_mem_nil _
  · exact fun v items hv hitems => List.forall_mem_cons.mpr ⟨hv, hitems⟩
  · exact List.forall_mem_nil _
  · exact fun m members hm hmembers => List.forall_mem_cons.mpr ⟨hm, hmembers⟩
  · exact fun _ _ h => h

/-! ## Order of keys -/

def sortKeys {V : Type} (members : List (String × V)) : List (String × V) :=
  members.insertionSort fun a b => a.1 ≤ b.1

mutual

def sorted : JsonValue N → JsonValue N
  | .null => .null
  | .bool b => .bool b
  | .number n => .number n
  | .string s => .string s
  | .array items => .array (sortedItems items)
  | .object members => .object (sortKeys (sortedMembers members))

def sortedItems : List (JsonValue N) → List (JsonValue N)
  | [] => []
  | v :: items => v.sorted :: sortedItems items

def sortedMembers : List (String × JsonValue N) → List (String × JsonValue N)
  | [] => []
  | (key, v) :: members => (key, v.sorted) :: sortedMembers members

end

/-- Every key of an object is there once, and every number is one of these. -/
inductive WellFormed (P : N → Prop) : JsonValue N → Prop where
  | null : WellFormed P .null
  | bool (b : Bool) : WellFormed P (.bool b)
  | number {n : N} (h : P n) : WellFormed P (.number n)
  | string (s : String) : WellFormed P (.string s)
  | array {items : List (JsonValue N)} (h : ∀ v ∈ items, WellFormed P v) : WellFormed P (.array items)
  | object {members : List (String × JsonValue N)} (keys : (members.map (·.1)).Nodup)
    (h : ∀ m ∈ members, WellFormed P m.2) : WellFormed P (.object members)

/-- Two values that differ in the order of keys. -/
inductive Reordered : JsonValue N → JsonValue N → Prop where
  | refl (v : JsonValue N) : Reordered v v
  | trans {u v w : JsonValue N} (h : Reordered u v) (h' : Reordered v w) : Reordered u w
  | keys {members members' : List (String × JsonValue N)} (h : members.Perm members') :
    Reordered (.object members) (.object members')
  | item (before after : List (JsonValue N)) {v w : JsonValue N} (h : Reordered v w) :
    Reordered (.array (before ++ v :: after)) (.array (before ++ w :: after))
  | member (before after : List (String × JsonValue N)) (key : String) {v w : JsonValue N}
    (h : Reordered v w) :
    Reordered (.object (before ++ (key, v) :: after)) (.object (before ++ (key, w) :: after))

mutual

def depth : JsonValue N → Nat
  | .array items => depthItems items + 1
  | .object members => depthMembers members + 1
  | _ => 0

def depthItems : List (JsonValue N) → Nat
  | [] => 0
  | v :: items => max v.depth (depthItems items)

def depthMembers : List (String × JsonValue N) → Nat
  | [] => 0
  | (_, v) :: members => max v.depth (depthMembers members)

end

/-! ## Writing -/

/-- How numbers and the characters of strings are written. -/
structure Writer (N : Type) where
  number : N → List Char
  escape : Char → List Char

namespace Writer

variable (w : Writer N)

def quoted (s : String) : List Char := '"' :: (s.toList.flatMap w.escape ++ ['"'])

/-- Some texts between two brackets. -/
def listed (first last : Char) (texts : List (List Char)) : List Char :=
  first :: ([','].intercalate texts ++ [last])

mutual

def write : JsonValue N → List Char
  | .null => "null".toList
  | .bool true => "true".toList
  | .bool false => "false".toList
  | .number n => w.number n
  | .string s => w.quoted s
  | .array items => listed '[' ']' (writeItems items)
  | .object members =>
    listed '{' '}' ((sortKeys (writeMembers members)).map fun m => w.quoted m.1 ++ ':' :: m.2)

def writeItems : List (JsonValue N) → List (List Char)
  | [] => []
  | v :: items => write v :: writeItems items

def writeMembers : List (String × JsonValue N) → List (String × List Char)
  | [] => []
  | (key, v) :: members => (key, write v) :: writeMembers members

end

end Writer

/-! ## Reading -/

section

variable (number : List Char → Option N)

def literals : List (List Char × JsonValue N) :=
  [("null".toList, .null), ("true".toList, .bool true), ("false".toList, .bool false)]

/-- The value that a text begins with, its members as they come, and the rest of the text. `limit` is one
more than the number of arrays and objects that may be within each other. -/
def readValue : Nat → List Char → Option (JsonValue N × List Char)
  | 0, _ => none
  | limit + 1, cs =>
    match cs with
    | '"' :: cs =>
      (Json.readString (cs.length + 1) cs).map fun (text, rest) => (.string (String.ofList text), rest)
    | '{' :: cs =>
      if limit = 0 then none
      else match Json.skip cs with
        | '}' :: rest => some (.object [], rest)
        | cs => (Json.readMembers (readValue limit) cs.length cs).map fun (members, rest) =>
          (.object (members.map fun m => (String.ofList m.1, m.2)), rest)
    | '[' :: cs =>
      if limit = 0 then none
      else match Json.skip cs with
        | ']' :: rest => some (.array [], rest)
        | cs => (Json.readItems (readValue limit) cs.length cs).map fun (items, rest) => (.array items, rest)
    | cs =>
      match literals.findSome? fun e => (e.1.isPrefixOf? cs).map fun rest => (e.2, rest) with
      | some found => some found
      | none => do
        let (text, rest) ← Json.readNumber cs
        return (.number (← number text), rest)

def read (limit : Nat) (text : List Char) : Option (JsonValue N) :=
  match readValue number limit (Json.skip text) with
  | some (v, rest) => if Json.skip rest = [] then some v else none
  | none => none

end

mutual

/-- A value as a map keeps it: its keys in order, of two that are equal the later one. -/
def kept : JsonValue N → JsonValue N
  | .null => .null
  | .bool b => .bool b
  | .number n => .number n
  | .string s => .string s
  | .array items => .array (keptItems items)
  | .object members => .object ((keptMembers members).foldl (fun d m => Dict.insert d m.1 m.2) [])

def keptItems : List (JsonValue N) → List (JsonValue N)
  | [] => []
  | v :: items => v.kept :: keptItems items

def keptMembers : List (String × JsonValue N) → List (String × JsonValue N)
  | [] => []
  | (key, v) :: members => (key, v.kept) :: keptMembers members

end

/-! ## Items and members -/

theorem sortedItems_eq (items : List (JsonValue N)) : sortedItems items = items.map sorted := by
  induction items with
  | nil => rfl
  | cons v items ih => exact congrArg _ ih

theorem sortedMembers_eq (members : List (String × JsonValue N)) :
    sortedMembers members = members.map fun m => (m.1, m.2.sorted) := by
  induction members with
  | nil => rfl
  | cons m members ih => exact congrArg _ ih

theorem Writer.writeItems_eq (w : Writer N) (items : List (JsonValue N)) :
    w.writeItems items = items.map w.write := by
  induction items with
  | nil => rfl
  | cons v items ih => exact congrArg _ ih

theorem Writer.writeMembers_eq (w : Writer N) (members : List (String × JsonValue N)) :
    w.writeMembers members = members.map fun m => (m.1, w.write m.2) := by
  induction members with
  | nil => rfl
  | cons m members ih => exact congrArg _ ih

theorem Writer.write_array (w : Writer N) (items : List (JsonValue N)) :
    w.write (.array items) = listed '[' ']' (items.map w.write) := by
  rw [← writeItems_eq]
  rfl

theorem Writer.write_object (w : Writer N) (members : List (String × JsonValue N)) :
    w.write (.object members) = listed '{' '}'
      ((sortKeys (members.map fun m => (m.1, w.write m.2))).map fun m => w.quoted m.1 ++ ':' :: m.2) := by
  rw [← writeMembers_eq]
  rfl

theorem sorted_array_eq (items : List (JsonValue N)) :
    (JsonValue.array items).sorted = .array (items.map sorted) := by
  rw [← sortedItems_eq]
  rfl

theorem sorted_object_eq (members : List (String × JsonValue N)) :
    (JsonValue.object members).sorted = .object (sortKeys (members.map fun m => (m.1, m.2.sorted))) := by
  rw [← sortedMembers_eq]
  rfl

theorem keptItems_eq (items : List (JsonValue N)) : keptItems items = items.map kept := by
  induction items with
  | nil => rfl
  | cons v items ih => exact congrArg _ ih

theorem keptMembers_eq (members : List (String × JsonValue N)) :
    keptMembers members = members.map fun m => (m.1, m.2.kept) := by
  induction members with
  | nil => rfl
  | cons m members ih => exact congrArg _ ih

theorem depth_le_depthItems {v : JsonValue N} {items : List (JsonValue N)} (h : v ∈ items) :
    v.depth ≤ depthItems items := by
  induction items with
  | nil => cases h
  | cons w items ih =>
    rw [depthItems]
    rcases List.mem_cons.mp h with rfl | h
    · exact le_max_left _ _
    · exact (ih h).trans (le_max_right _ _)

theorem depth_le_depthMembers {m : String × JsonValue N} {members : List (String × JsonValue N)}
    (h : m ∈ members) : m.2.depth ≤ depthMembers members := by
  induction members with
  | nil => cases h
  | cons m' members ih =>
    rw [depthMembers]
    rcases List.mem_cons.mp h with rfl | h
    · exact le_max_left _ _
    · exact (ih h).trans (le_max_right _ _)

/-! ## Sorting -/

section

variable {V V' : Type} {members members' : List (String × V)}

theorem sortKeys_perm (members : List (String × V)) : (sortKeys members).Perm members :=
  List.perm_insertionSort _ _

theorem sortKeys_map (f : V → V') (members : List (String × V)) :
    sortKeys (members.map fun m => (m.1, f m.2)) = (sortKeys members).map fun m => (m.1, f m.2) :=
  (List.map_insertionSort (fun a b : String × V => a.1 ≤ b.1) (fun a b : String × V' => a.1 ≤ b.1) _ _
    fun _ _ _ _ => Iff.rfl).symm

theorem sortKeys_pairwise (members : List (String × V)) :
    (sortKeys members).Pairwise fun a b => a.1 ≤ b.1 := by
  have : IsTrans (String × V) fun a b => a.1 ≤ b.1 := ⟨fun _ _ _ h h' => String.le_trans h h'⟩
  have : Std.Total fun a b : String × V => a.1 ≤ b.1 := ⟨fun a b => String.le_total a.1 b.1⟩
  exact List.pairwise_insertionSort _ _

theorem sortKeys_of_perm (h : members.Perm members') (hkeys : (members.map (·.1)).Nodup) :
    sortKeys members = sortKeys members' := by
  have hperm : (sortKeys members).Perm (sortKeys members') :=
    (sortKeys_perm members).trans (h.trans (sortKeys_perm members').symm)
  refine hperm.eq_of_pairwise (fun a b ha hb hle hge => ?_) (sortKeys_pairwise members)
    (sortKeys_pairwise members')
  have ha' : a ∈ members := (sortKeys_perm members).mem_iff.mp ha
  have hb' : b ∈ members := (sortKeys_perm members).mem_iff.mp (hperm.mem_iff.mpr hb)
  exact List.inj_on_of_nodup_map hkeys ha' hb' (String.le_antisymm hle hge)

theorem nodup_sortKeys (hkeys : (members.map (·.1)).Nodup) : ((sortKeys members).map (·.1)).Nodup :=
  ((sortKeys_perm members).map _).nodup_iff.mpr hkeys

theorem sorted_sortKeys (hkeys : (members.map (·.1)).Nodup) : Dict.Sorted (sortKeys members) := by
  have hne : (sortKeys members).Pairwise fun a b => a.1 ≠ b.1 := List.pairwise_map.mp (nodup_sortKeys hkeys)
  exact ((sortKeys_pairwise members).and hne).imp fun h => Std.lt_of_le_of_ne h.1 h.2

/-- Keys in order are kept so. -/
theorem insert_snoc {d : Dict V} {m : String × V} (h : Dict.Sorted (d ++ [m])) :
    Dict.insert d m.1 m.2 = d ++ [m] := by
  induction d with
  | nil => rfl
  | cons e d ih =>
    obtain ⟨he, hrest⟩ := List.pairwise_cons.mp h
    have hlt : e.1 < m.1 := he m (by simp)
    obtain ⟨k, v⟩ := e
    unfold Dict.insert
    rw [if_neg (String.lt_asymm hlt), if_neg (String.ne_of_lt hlt).symm, ih hrest]
    rfl

theorem foldl_insert_sorted (h : Dict.Sorted members) :
    members.foldl (fun d m => Dict.insert d m.1 m.2) [] = members := by
  induction members using List.reverseRecOn with
  | nil => rfl
  | append_singleton members m ih =>
    have hbefore : Dict.Sorted members := (List.pairwise_append.mp h).1
    rw [List.foldl_append, ih hbefore]
    exact insert_snoc h

end

/-! ## Values in order -/

theorem sorted_array {items : List (JsonValue N)} (h : ∀ v ∈ items, v.sorted = v) :
    (JsonValue.array items).sorted = .array items := by
  rw [sorted_array_eq, List.map_congr_left h, List.map_id']

theorem sorted_object {members : List (String × JsonValue N)} (hkeys : Dict.Sorted members)
    (h : ∀ m ∈ members, m.2.sorted = m.2) : (JsonValue.object members).sorted = .object members := by
  have hmembers : members.map (fun m => (m.1, m.2.sorted)) = members := by
    rw [List.map_congr_left fun m hm => by rw [h m hm], List.map_id']
  have hle : members.Pairwise fun a b => a.1 ≤ b.1 := hkeys.imp fun hlt => Std.le_of_lt hlt
  rw [sorted_object_eq, hmembers, sortKeys, hle.insertionSort_eq]

/-! ## Values that differ in the order of keys -/

theorem Reordered.symm {v w : JsonValue N} (h : Reordered v w) : Reordered w v := by
  induction h with
  | refl v => exact .refl v
  | trans _ _ ih ih' => exact ih'.trans ih
  | keys h => exact .keys h.symm
  | item before after _ ih => exact .item before after ih
  | member before after key _ ih => exact .member before after key ih

/-- Distinct keys stay so, and the text is the same. -/
theorem Reordered.write_eq {P : N → Prop} (w : Writer N) {u v : JsonValue N} (h : Reordered u v)
    (hu : WellFormed P u) : WellFormed P v ∧ w.write u = w.write v := by
  induction h with
  | refl v => exact ⟨hu, rfl⟩
  | trans _ _ ih ih' =>
    obtain ⟨hv, heq⟩ := ih hu
    obtain ⟨hw, heq'⟩ := ih' hv
    exact ⟨hw, heq.trans heq'⟩
  | @keys members members' h =>
    obtain - | - | - | - | - | ⟨hkeys, hmembers⟩ := hu
    refine ⟨.object ((h.map _).nodup_iff.mp hkeys) fun m hm => hmembers m (h.mem_iff.mpr hm), ?_⟩
    rw [Writer.write_object, Writer.write_object,
      sortKeys_of_perm (h.map _) (by simpa [Function.comp_def] using hkeys)]
  | item before after _ ih =>
    obtain - | - | - | - | hitems := hu
    obtain ⟨hv, heq⟩ := ih (hitems _ (by simp))
    refine ⟨.array fun u hmem => ?_, ?_⟩
    · rcases List.mem_append.mp hmem with hmem | hmem
      · exact hitems u (by simp [hmem])
      · rcases List.mem_cons.mp hmem with rfl | hmem
        · exact hv
        · exact hitems u (by simp [hmem])
    · rw [Writer.write_array, Writer.write_array, List.map_append,
        List.map_append, List.map_cons, List.map_cons, heq]
  | member before after key _ ih =>
    obtain - | - | - | - | - | ⟨hkeys, hmembers⟩ := hu
    obtain ⟨hv, heq⟩ := ih (hmembers (key, _) (by simp))
    refine ⟨.object (by simpa using hkeys) fun m hmem => ?_, ?_⟩
    · rcases List.mem_append.mp hmem with hmem | hmem
      · exact hmembers m (by simp [hmem])
      · rcases List.mem_cons.mp hmem with rfl | hmem
        · exact hv
        · exact hmembers m (by simp [hmem])
    · rw [Writer.write_object, Writer.write_object, List.map_append,
        List.map_append, List.map_cons, List.map_cons, heq]

theorem Reordered.items {items : List (JsonValue N)} {f : JsonValue N → JsonValue N}
    (h : ∀ v ∈ items, Reordered v (f v)) (before : List (JsonValue N)) :
    Reordered (.array (before ++ items)) (.array (before ++ items.map f)) := by
  induction items generalizing before with
  | nil => exact .refl _
  | cons v items ih =>
    obtain ⟨hv, hitems⟩ := List.forall_mem_cons.mp h
    refine .trans (.item before items hv) ?_
    have hrest := ih hitems (before ++ [f v])
    rwa [List.append_assoc, List.append_assoc] at hrest

theorem Reordered.members {members : List (String × JsonValue N)} {f : JsonValue N → JsonValue N}
    (h : ∀ m ∈ members, Reordered m.2 (f m.2)) (before : List (String × JsonValue N)) :
    Reordered (.object (before ++ members)) (.object (before ++ members.map fun m => (m.1, f m.2))) := by
  induction members generalizing before with
  | nil => exact .refl _
  | cons m members ih =>
    obtain ⟨hm, hmembers⟩ := List.forall_mem_cons.mp h
    refine .trans (.member before members m.1 hm) ?_
    have hrest := ih hmembers (before ++ [(m.1, f m.2)])
    rwa [List.append_assoc, List.append_assoc] at hrest

theorem reordered_sorted (v : JsonValue N) : Reordered v v.sorted := by
  induction v using induct with
  | null => exact .refl _
  | bool b => exact .refl _
  | number n => exact .refl _
  | string s => exact .refl _
  | array items ih =>
    rw [sorted_array_eq]
    exact Reordered.items ih []
  | object members ih =>
    rw [sorted_object_eq]
    exact (Reordered.members ih []).trans (.keys (sortKeys_perm _).symm)

/-! ## What is written is read -/

/-- What a reader must give for a writer. -/
structure Writer.ReadBy (w : Writer N) (number : List Char → Option N) (P : N → Prop) : Prop where
  number : ∀ n, P n → ∃ k : Int, w.number n = Json.printInt k 0 ∧ number (Json.printInt k 0) = some n
  escape : ∀ fuel c cs, Json.readString (fuel + 1) (w.escape c ++ cs) =
    (Json.readString fuel cs).map fun (text, rest) => (c :: text, rest)
  escape_ne : ∀ c, w.escape c ≠ []

section

variable {V : Type} {value : List Char → Option (V × List Char)} {w : Writer N}
  {number : List Char → Option N} {P : N → Prop}

/-- A text that is read as a value, up to what comes after it. -/
structure Given (value : List Char → Option (V × List Char)) (text : List Char) (v : V) : Prop where
  head : ∃ c cs, text = c :: cs ∧ Json.isWs c = false ∧ c ≠ ']'
  reads : ∀ rest, Json.Stops rest → value (text ++ rest) = some (v, rest)

variable {texts : List (List Char)} {ms : List (String × List Char)} {rest blank : List Char}
  {limit : Nat} {v : JsonValue N}

theorem head_intercalate (hne : texts ≠ [])
    (hheads : ∀ t ∈ texts, ∃ c cs, t = c :: cs ∧ Json.isWs c = false ∧ c ≠ ']') (rest : List Char) :
    ∃ c cs, [','].intercalate texts ++ rest = c :: cs ∧ Json.isWs c = false ∧ c ≠ ']' := by
  obtain ⟨t, texts, rfl⟩ := List.exists_cons_of_ne_nil hne
  obtain ⟨c, cs, rfl, hws, hc⟩ := hheads t List.mem_cons_self
  by_cases hlast : texts = []
  · subst hlast
    exact ⟨c, _, by rw [List.intercalate_singleton]; rfl, hws, hc⟩
  · exact ⟨c, _, by rw [List.intercalate_cons_of_ne_nil hlast]; rfl, hws, hc⟩

theorem readItems_items {vs : List V} (h : List.Forall₂ (Given value) texts vs)
    (hne : texts ≠ []) {n : Nat} (hn : texts.length ≤ n) (rest : List Char) :
    Json.readItems value n ([','].intercalate texts ++ ']' :: rest) = some (vs, rest) := by
  induction h generalizing n with
  | nil => exact absurd rfl hne
  | @cons t v texts vs ht hts ih =>
    obtain ⟨n, rfl⟩ := Nat.exists_eq_add_of_le' (show 1 ≤ n by rw [List.length_cons] at hn; omega)
    rw [List.length_cons] at hn
    by_cases hlast : texts = []
    · subst hlast
      cases hts
      rw [List.intercalate_singleton, Json.readItems, ht.reads _ (Json.stops_cons (.inr (.inl rfl)) rest)]
      rfl
    · have hheads : ∀ t ∈ texts, ∃ c cs, t = c :: cs ∧ Json.isWs c = false ∧ c ≠ ']' := by
        intro t' ht'
        obtain ⟨i, hi, rfl⟩ := List.getElem_of_mem ht'
        exact (List.forall₂_iff_get.mp hts |>.2 i hi (by rw [← hts.length_eq]; exact hi)).head
      obtain ⟨c, cs, hcs, hws, -⟩ := head_intercalate hlast hheads (']' :: rest)
      have hnext : Json.skip ([','].intercalate texts ++ ']' :: rest) =
          [','].intercalate texts ++ ']' :: rest := by
        rw [hcs]
        exact Json.skip_cons hws
      have hcomma : Json.skip (',' :: ([','].intercalate texts ++ ']' :: rest)) =
          ',' :: ([','].intercalate texts ++ ']' :: rest) := Json.skip_cons rfl
      rw [List.intercalate_cons_of_ne_nil hlast, List.append_assoc, List.append_assoc, List.singleton_append,
        Json.readItems, ht.reads _ (Json.stops_cons (.inl rfl) _)]
      simp only [Option.bind_eq_bind, Option.bind_some, hcomma, hnext, ih hlast (n := n) (by omega),
        Option.pure_def]

theorem Writer.ReadBy.string (hw : w.ReadBy number P) (s rest : List Char) {fuel : Nat} (h : s.length < fuel) :
    Json.readString fuel (s.flatMap w.escape ++ '"' :: rest) = some (s, rest) := by
  induction s generalizing fuel with
  | nil =>
    obtain ⟨fuel, rfl⟩ := Nat.exists_eq_add_of_lt h
    rw [List.flatMap_nil, List.nil_append, Json.readString, if_pos rfl]
  | cons c s ih =>
    obtain ⟨fuel, rfl⟩ := Nat.exists_eq_add_of_lt h
    rw [List.flatMap_cons, List.append_assoc, hw.escape, ih (by rw [List.length_cons]; omega)]
    rfl

theorem Writer.ReadBy.text (hw : w.ReadBy number P) (s rest : List Char) :
    Json.readString ((s.flatMap w.escape ++ '"' :: rest).length + 1) (s.flatMap w.escape ++ '"' :: rest) =
      some (s, rest) := by
  refine hw.string s rest ?_
  have hlen : s.length ≤ (s.flatMap w.escape).length := by
    induction s with
    | nil => exact Nat.le_refl _
    | cons c s ih =>
      have hc := List.length_pos_iff.mpr (hw.escape_ne c)
      rw [List.flatMap_cons, List.length_append, List.length_cons]
      omega
  rw [List.length_append]
  omega

def Writer.member (w : Writer N) (m : String × List Char) : List Char := w.quoted m.1 ++ ':' :: m.2

variable {m : String × List Char} {c : Char} {k : Nat}

theorem Writer.ReadBy.member_last (hw : w.ReadBy number P) {v : V}
    (h : Given value m.2 v) (rest : List Char) (n : Nat) :
    Json.readMembers value (n + 1) (w.member m ++ '}' :: rest) = some ([(m.1.toList, v)], rest) := by
  have hskip {c : Char} (hws : Json.isWs c = false) (cs : List Char) : Json.skip (c :: cs) = c :: cs :=
    Json.skip_cons hws
  obtain ⟨c, cs, hc, hws, -⟩ := h.head
  have hvalue : Json.skip (m.2 ++ '}' :: rest) = m.2 ++ '}' :: rest := hc ▸ Json.skip_cons hws
  have hread := h.reads _ (Json.stops_cons (.inr (.inr (.inl rfl))) rest)
  simp only [Writer.member, Writer.quoted, List.cons_append, List.append_assoc, List.nil_append,
    Json.readMembers, hw.text, Option.bind_eq_bind, Option.bind_some, @hskip ':' rfl, @hskip '}' rfl, hvalue, hread,
    Option.pure_def]

theorem Writer.ReadBy.member_next (hw : w.ReadBy number P) {v : V}
    (h : Given value m.2 v) (rest : List Char) (n : Nat) :
    Json.readMembers value (n + 1) (w.member m ++ ',' :: rest) =
      (Json.readMembers value n (Json.skip rest)).map fun (members, rest) => ((m.1.toList, v) :: members, rest) := by
  have hskip {c : Char} (hws : Json.isWs c = false) (cs : List Char) : Json.skip (c :: cs) = c :: cs :=
    Json.skip_cons hws
  obtain ⟨c, cs, hc, hws, -⟩ := h.head
  have hvalue : Json.skip (m.2 ++ ',' :: rest) = m.2 ++ ',' :: rest := hc ▸ Json.skip_cons hws
  have hread := h.reads _ (Json.stops_cons (.inl rfl) rest)
  simp only [Writer.member, Writer.quoted, List.cons_append, List.append_assoc, List.nil_append,
    Json.readMembers, hw.text, Option.bind_eq_bind, Option.bind_some, @hskip ':' rfl, @hskip ',' rfl, hvalue, hread,
    Option.pure_def]
  cases Json.readMembers value n (Json.skip rest) <;> rfl

theorem Writer.head_member (w : Writer N) (m : String × List Char) :
    ∃ c cs, w.member m = c :: cs ∧ Json.isWs c = false ∧ c ≠ ']' := ⟨'"', _, rfl, rfl, by decide⟩

theorem Writer.ReadBy.members (hw : w.ReadBy number P)
    {vs : List (String × V)} (h : List.Forall₂ (fun m v => m.1 = v.1 ∧ Given value m.2 v.2) ms vs)
    (hne : ms ≠ []) {n : Nat} (hn : ms.length ≤ n) (rest : List Char) :
    Json.readMembers value n ([','].intercalate (ms.map w.member) ++ '}' :: rest) =
      some (vs.map fun v => (v.1.toList, v.2), rest) := by
  induction h generalizing n with
  | nil => exact absurd rfl hne
  | @cons m v ms vs hm hms ih =>
    obtain ⟨hkey, hgiven⟩ := hm
    obtain ⟨n, rfl⟩ := Nat.exists_eq_add_of_le' (show 1 ≤ n by rw [List.length_cons] at hn; omega)
    rw [List.length_cons] at hn
    by_cases hlast : ms = []
    · subst hlast
      cases hms
      rw [List.map_singleton, List.intercalate_singleton,
        hw.member_last hgiven rest n, hkey]
      rfl
    · have hmap : ms.map w.member ≠ [] := by simpa using hlast
      have hheads : ∀ t ∈ ms.map w.member, ∃ c cs, t = c :: cs ∧ Json.isWs c = false ∧ c ≠ ']' := by
        intro t ht
        obtain ⟨m', -, rfl⟩ := List.mem_map.mp ht
        exact w.head_member m'
      obtain ⟨c, cs, hcs, hws, -⟩ := head_intercalate hmap hheads ('}' :: rest)
      have hnext : Json.skip ([','].intercalate (ms.map w.member) ++ '}' :: rest) =
          [','].intercalate (ms.map w.member) ++ '}' :: rest := by
        rw [hcs]
        exact Json.skip_cons hws
      rw [List.map_cons, List.intercalate_cons_of_ne_nil hmap, List.append_assoc, List.append_assoc,
        List.singleton_append, hw.member_next hgiven _ n, hnext, ih hlast (n := n) (by omega), hkey]
      rfl

theorem forall₂_map {α β γ : Type} {R : β → γ → Prop} (f : α → β) (g : α → γ) {as : List α}
    (h : ∀ a ∈ as, R (f a) (g a)) : List.Forall₂ R (as.map f) (as.map g) := by
  induction as with
  | nil => exact .nil
  | cons a as ih =>
    obtain ⟨ha, has⟩ := List.forall_mem_cons.mp h
    exact .cons ha (ih has)

theorem literals_digit (h : c = '-' ∨ Text.isDigit c = true) (cs : List Char) :
    (literals (N := N)).findSome? (fun e => (e.1.isPrefixOf? (c :: cs)).map fun rest => (e.2, rest)) = none := by
  have hne (d : Char) (hd : Text.isDigit d = false) (hminus : d ≠ '-') : d ≠ c := by
    rintro rfl
    rcases h with h | h
    · exact hminus h
    · rw [hd] at h
      cases h
  simp [literals, List.isPrefixOf?, hne 'n' rfl (by decide), hne 't' rfl (by decide), hne 'f' rfl (by decide)]

theorem head_printInt (k : Int) : ∃ c cs, Json.printInt k 0 = c :: cs ∧ (c = '-' ∨ Text.isDigit c = true) := by
  unfold Json.printInt
  split
  · exact ⟨'-', _, rfl, .inl rfl⟩
  · obtain ⟨c, cs, hcs⟩ := List.exists_cons_of_ne_nil (Text.repr_ne_nil k.natAbs)
    exact ⟨c, cs, hcs, .inr (Text.isDigit_of_mem_repr (hcs ▸ List.mem_cons_self))⟩

theorem readNumber_printInt (k : Int) (h : Json.Stops rest) :
    Json.readNumber (Json.printInt k 0 ++ rest) = some (Json.printInt k 0, rest) := by
  unfold Json.printInt
  split
  · exact Json.readNumber_neg k.natAbs h
  · exact Json.readNumber_repr k.natAbs h

theorem Writer.ReadBy.given_number (hw : w.ReadBy number P) {n : N} (hn : P n) (limit : Nat) :
    Given (readValue number (limit + 1)) (w.number n) (.number n) := by
  obtain ⟨k, htext, hread⟩ := hw.number n hn
  obtain ⟨c, cs, hcs, hc⟩ := head_printInt k
  have hne (d : Char) (hd : Text.isDigit d = false) (hminus : d ≠ '-') : c ≠ d := by
    rintro rfl
    rcases hc with hc | hc
    · exact hminus hc
    · rw [hd] at hc
      cases hc
  rw [htext]
  constructor
  case head =>
    refine ⟨c, cs, hcs, ?_, hne ']' rfl (by decide)⟩
    simp [Json.isWs, hne ' ' rfl (by decide), hne '\t' rfl (by decide), hne '\n' rfl (by decide),
      hne '\r' rfl (by decide)]
  case reads =>
    intro rest hrest
    have hnumber := readNumber_printInt k hrest
    rw [hcs, List.cons_append] at hnumber ⊢
    unfold readValue
    split
    · rename_i heq
      exact absurd (List.cons.inj heq).1 (hne '"' rfl (by decide))
    · rename_i heq
      exact absurd (List.cons.inj heq).1 (hne '{' rfl (by decide))
    · rename_i heq
      exact absurd (List.cons.inj heq).1 (hne '[' rfl (by decide))
    · rw [literals_digit hc, hnumber, ← hcs]
      simp only [Option.bind_eq_bind, Option.bind_some, hread, Option.pure_def]

theorem readValue_items {number : List Char → Option N} (hlimit : limit ≠ 0)
    {cs : List Char} (hskip : Json.skip cs = c :: rest) (hc : c ≠ ']') :
    readValue number (limit + 1) ('[' :: cs) =
      (Json.readItems (readValue number limit) (c :: rest).length (c :: rest)).map fun (items, rest) =>
        (.array items, rest) := by
  refine (if_neg hlimit).trans ?_
  rw [hskip]
  split
  · rename_i heq
    exact absurd (List.cons.inj heq).1 hc
  · rfl

theorem readValue_members {number : List Char → Option N} (hlimit : limit ≠ 0)
    {cs : List Char} (hskip : Json.skip cs = c :: rest) (hc : c ≠ '}') :
    readValue number (limit + 1) ('{' :: cs) =
      (Json.readMembers (readValue number limit) (c :: rest).length (c :: rest)).map fun (members, rest) =>
        (.object (members.map fun m => (String.ofList m.1, m.2)), rest) := by
  refine (if_neg hlimit).trans ?_
  rw [hskip]
  split
  · rename_i heq
    exact absurd (List.cons.inj heq).1 hc
  · rfl

theorem readValue_nested {number : List Char → Option N} {c : Char} (hc : c = '[' ∨ c = '{') (cs : List Char) :
    readValue number 1 (c :: cs) = none := by
  rcases hc with rfl | rfl
  · rfl
  · rfl

theorem Writer.ReadBy.given_string (hw : w.ReadBy number P) (s : String) (limit : Nat) :
    Given (readValue number (limit + 1)) (w.quoted s) (.string s) where
  head := ⟨'"', _, rfl, rfl, by decide⟩
  reads rest _ := by
    have hread : readValue number (limit + 1) (w.quoted s ++ rest) =
        (Json.readString ((s.toList.flatMap w.escape ++ ['"'] ++ rest).length + 1)
          (s.toList.flatMap w.escape ++ ['"'] ++ rest)).map fun found =>
            (.string (String.ofList found.1), found.2) := rfl
    simp only [hread, List.append_assoc, List.singleton_append, hw.text, Option.map_some, String.ofList_toList]

theorem given_array {vs : List (JsonValue N)} (hlimit : limit ≠ 0)
    (h : List.Forall₂ (Given (readValue number limit)) texts vs) :
    Given (readValue number (limit + 1)) (Writer.listed '[' ']' texts) (.array vs) where
  head := ⟨'[', _, rfl, rfl, by decide⟩
  reads rest _ := by
    by_cases hne : texts = []
    · subst hne
      cases h
      exact (if_neg hlimit).trans rfl
    · have hheads : ∀ t ∈ texts, ∃ c cs, t = c :: cs ∧ Json.isWs c = false ∧ c ≠ ']' := by
        intro t ht
        obtain ⟨i, hi, rfl⟩ := List.getElem_of_mem ht
        exact (List.forall₂_iff_get.mp h |>.2 i hi (by rw [← h.length_eq]; exact hi)).head
      obtain ⟨c, cs, hcs, hws, hc⟩ := head_intercalate hne hheads (']' :: rest)
      have hlen : texts.length ≤ ([','].intercalate texts ++ ']' :: rest).length := by
        have hshort := @Json.length_le_intercalate [','] texts fun t ht => by
          obtain ⟨c, cs, rfl, -⟩ := hheads t ht
          exact List.cons_ne_nil c cs
        rw [List.length_append]
        omega
      have hread := readItems_items h hne hlen rest
      rw [Writer.listed, List.cons_append, List.append_assoc, List.singleton_append]
      rw [hcs] at hread ⊢
      rw [readValue_items hlimit (Json.skip_cons hws) hc, hread]
      rfl

theorem Writer.head_members (w : Writer N) (hne : ms ≠ []) (rest : List Char) :
    ∃ cs, [','].intercalate (ms.map w.member) ++ '}' :: rest = '"' :: cs := by
  obtain ⟨m, ms, rfl⟩ := List.exists_cons_of_ne_nil hne
  by_cases hlast : ms = []
  · subst hlast
    exact ⟨_, by rw [List.map_singleton, List.intercalate_singleton]; rfl⟩
  · rw [List.map_cons, List.intercalate_cons_of_ne_nil (by simpa using hlast)]
    exact ⟨_, rfl⟩

theorem Writer.ReadBy.given_object (hw : w.ReadBy number P)
    {vs : List (String × JsonValue N)} (hlimit : limit ≠ 0)
    (h : List.Forall₂ (fun m v => m.1 = v.1 ∧ Given (readValue number limit) m.2 v.2) ms vs) :
    Given (readValue number (limit + 1)) (Writer.listed '{' '}' (ms.map w.member)) (.object vs) where
  head := ⟨'{', _, rfl, rfl, by decide⟩
  reads rest _ := by
    by_cases hne : ms = []
    · subst hne
      cases h
      exact (if_neg hlimit).trans rfl
    · obtain ⟨cs, hcs⟩ := w.head_members hne rest
      have hlen : ms.length ≤ ([','].intercalate (ms.map w.member) ++ '}' :: rest).length := by
        have hshort := @Json.length_le_intercalate [','] (ms.map w.member) fun t ht => by
          obtain ⟨m, -, rfl⟩ := List.mem_map.mp ht
          exact List.cons_ne_nil _ _
        rw [List.length_map] at hshort
        rw [List.length_append]
        omega
      have hread := hw.members h hne hlen rest
      have hkeys : (vs.map fun v => (v.1.toList, v.2)).map (fun m => (String.ofList m.1, m.2)) = vs := by
        simp [Function.comp_def]
      rw [Writer.listed, List.cons_append, List.append_assoc, List.singleton_append]
      rw [hcs] at hread ⊢
      rw [readValue_members hlimit (Json.skip_cons rfl) (by decide), hread]
      exact congrArg (fun members => some (JsonValue.object members, rest)) hkeys

/-- What is written is read as the value with its keys in order, wherever it isn't too deep. -/
theorem Writer.ReadBy.given_write (hw : w.ReadBy number P) (hv : WellFormed P v)
    (hlimit : v.depth < limit) : Given (readValue number limit) (w.write v) v.sorted := by
  induction v using induct generalizing limit with
  | null =>
    obtain ⟨limit, rfl⟩ := Nat.exists_eq_add_of_lt hlimit
    exact ⟨⟨'n', _, rfl, rfl, by decide⟩, fun rest _ => rfl⟩
  | bool b =>
    obtain ⟨limit, rfl⟩ := Nat.exists_eq_add_of_lt hlimit
    cases b with
    | true => exact ⟨⟨'t', _, rfl, rfl, by decide⟩, fun rest _ => rfl⟩
    | false => exact ⟨⟨'f', _, rfl, rfl, by decide⟩, fun rest _ => rfl⟩
  | number n =>
    obtain ⟨limit, rfl⟩ := Nat.exists_eq_add_of_lt hlimit
    obtain - | - | hn := hv
    rw [Writer.write, sorted]
    exact hw.given_number hn _
  | string s =>
    obtain ⟨limit, rfl⟩ := Nat.exists_eq_add_of_lt hlimit
    rw [Writer.write, sorted]
    exact hw.given_string s _
  | array items ih =>
    obtain - | - | - | - | hitems := hv
    rw [depth] at hlimit
    obtain ⟨limit, rfl⟩ := Nat.exists_eq_add_of_le' (show 1 ≤ limit by omega)
    rw [Writer.write_array, sorted_array_eq]
    refine given_array (by omega) (forall₂_map _ _ fun v hv => ih v hv (hitems v hv) ?_)
    have := depth_le_depthItems hv
    omega
  | object members ih =>
    obtain - | - | - | - | - | ⟨hkeys, hmembers⟩ := hv
    rw [depth] at hlimit
    obtain ⟨limit, rfl⟩ := Nat.exists_eq_add_of_le' (show 1 ≤ limit by omega)
    rw [Writer.write_object, sorted_object_eq, sortKeys_map, sortKeys_map]
    refine hw.given_object (by omega) (forall₂_map _ _ fun m hm => ⟨rfl, ?_⟩)
    have hm' := (sortKeys_perm members).mem_iff.mp hm
    refine ih m hm' (hmembers m hm') ?_
    have := depth_le_depthMembers hm'
    omega

theorem skip_eq_nil (h : ∀ c ∈ blank, Json.isWs c = true) : Json.skip blank = [] := by
  have hskip := @Json.skip_append blank [] h
  rwa [List.append_nil] at hskip

/-- A text that is read whole. -/
theorem stops_blank (h : ∀ c ∈ blank, Json.isWs c = true) : Json.Stops blank := by
  intro c cs hcs
  have hws := h c (by rw [hcs]; exact List.mem_cons_self)
  simp only [Json.isWs, Bool.or_eq_true, decide_eq_true_eq] at hws
  rcases hws with ((rfl | rfl) | rfl) | rfl <;> decide

theorem read_of_given {text : List Char} (h : Given (readValue number limit) text v)
    (hblank : ∀ c ∈ blank, Json.isWs c = true) : read number limit (text ++ blank) = some v := by
  obtain ⟨c, cs, hcs, hws, -⟩ := h.head
  have hskip : Json.skip (text ++ blank) = text ++ blank := by
    rw [hcs]
    exact Json.skip_cons hws
  have hend : Json.skip blank = [] := skip_eq_nil hblank
  rw [read, hskip, h.reads blank (stops_blank hblank)]
  exact if_pos hend

theorem Writer.ReadBy.read_write (hw : w.ReadBy number P) (hv : WellFormed P v)
    (hlimit : v.depth < limit) (hblank : ∀ c ∈ blank, Json.isWs c = true) :
    read number limit (w.write v ++ blank) = some v.sorted :=
  read_of_given (hw.given_write hv hlimit) hblank

theorem Writer.ReadBy.sorted_eq (hw : w.ReadBy number P) {u : JsonValue N} (hu : WellFormed P u)
    (hv : WellFormed P v) (heq : w.write u = w.write v) : u.sorted = v.sorted := by
  have hread (x : JsonValue N) (hx : WellFormed P x) (hle : x.depth ≤ max u.depth v.depth) :
      read number (max u.depth v.depth + 1) (w.write x) = some x.sorted := by
    have h := hw.read_write hx (Nat.lt_succ_of_le hle) (List.forall_mem_nil (Json.isWs · = true))
    rwa [List.append_nil] at h
  have hsame := hread u hu (le_max_left _ _)
  rw [heq, hread v hv (le_max_right _ _)] at hsame
  exact (Option.some.inj hsame).symm

/-- Two values have one text if and only if they differ in the order of keys. -/
theorem Writer.ReadBy.write_eq_iff (hw : w.ReadBy number P) {u : JsonValue N} (hu : WellFormed P u)
    (hv : WellFormed P v) : w.write u = w.write v ↔ Reordered u v := by
  constructor
  · intro heq
    have hsorted := hw.sorted_eq hu hv heq
    exact (reordered_sorted u).trans (hsorted ▸ (reordered_sorted v).symm)
  · exact fun h => (h.write_eq w hu).2

/-! ### Depths -/

theorem depthItems_le {items : List (JsonValue N)} (h : ∀ v ∈ items, v.depth ≤ k) :
    depthItems items ≤ k := by
  induction items with
  | nil => exact Nat.zero_le k
  | cons v items ih =>
    obtain ⟨hv, hitems⟩ := List.forall_mem_cons.mp h
    exact max_le hv (ih hitems)

theorem depthMembers_le {members : List (String × JsonValue N)} (h : ∀ m ∈ members, m.2.depth ≤ k) :
    depthMembers members ≤ k := by
  induction members with
  | nil => exact Nat.zero_le k
  | cons m members ih =>
    obtain ⟨hm, hmembers⟩ := List.forall_mem_cons.mp h
    exact max_le hm (ih hmembers)

/-! ### Values that are too deep -/

/-- A text that isn't read. -/
structure Fails (value : List Char → Option (V × List Char)) (text : List Char) : Prop where
  head : ∃ c cs, text = c :: cs ∧ Json.isWs c = false ∧ c ≠ ']'
  fails : ∀ rest, Json.Stops rest → value (text ++ rest) = none

theorem readItems_none
    (h : ∀ t ∈ texts, (∃ v, Given value t v) ∨ Fails value t) (hbad : ∃ t ∈ texts, Fails value t) (n : Nat)
    (rest : List Char) : Json.readItems value n ([','].intercalate texts ++ ']' :: rest) = none := by
  induction texts generalizing n with
  | nil =>
    obtain ⟨t, ht, -⟩ := hbad
    cases ht
  | cons t texts ih =>
    cases n with
    | zero => rfl
    | succ n =>
      obtain ⟨ht, htexts⟩ := List.forall_mem_cons.mp h
      by_cases hlast : texts = []
      · subst hlast
        obtain ⟨t', ht', hfails⟩ := hbad
        obtain rfl := List.mem_singleton.mp ht'
        rw [List.intercalate_singleton, Json.readItems,
          hfails.fails _ (Json.stops_cons (.inr (.inl rfl)) rest)]
        rfl
      · rw [List.intercalate_cons_of_ne_nil hlast, List.append_assoc, List.append_assoc, List.singleton_append,
          Json.readItems]
        rcases ht with ⟨v, hv⟩ | hfails
        · have hheads : ∀ t ∈ texts, ∃ c cs, t = c :: cs ∧ Json.isWs c = false ∧ c ≠ ']' := by
            intro t' ht'
            rcases htexts t' ht' with ⟨v', hv'⟩ | hfails
            · exact hv'.head
            · exact hfails.head
          obtain ⟨c, cs, hcs, hws, -⟩ := head_intercalate hlast hheads (']' :: rest)
          have hnext : Json.skip ([','].intercalate texts ++ ']' :: rest) =
              [','].intercalate texts ++ ']' :: rest := by
            rw [hcs]
            exact Json.skip_cons hws
          have hcomma : Json.skip (',' :: ([','].intercalate texts ++ ']' :: rest)) =
              ',' :: ([','].intercalate texts ++ ']' :: rest) := Json.skip_cons rfl
          rw [hv.reads _ (Json.stops_cons (.inl rfl) _)]
          by_cases hrest : ∃ t ∈ texts, Fails value t
          · simp only [Option.bind_eq_bind, Option.bind_some, hcomma, hnext, ih htexts hrest n,
              Option.bind_none]
          · -- the first one would be the one that fails
            obtain ⟨t', ht', hfails⟩ := hbad
            rcases List.mem_cons.mp ht' with rfl | ht'
            · have hnone := hfails.fails _ (Json.stops_cons (.inl rfl) [])
              rw [hv.reads _ (Json.stops_cons (.inl rfl) [])] at hnone
              cases hnone
            · exact absurd ⟨t', ht', hfails⟩ hrest
        · rw [hfails.fails _ (Json.stops_cons (.inl rfl) _)]
          rfl

theorem Writer.ReadBy.member_none (hw : w.ReadBy number P) (h : Fails value m.2)
    (hrest : Json.Stops rest) (n : Nat) :
    Json.readMembers value (n + 1) (w.member m ++ rest) = none := by
  have hcolon (cs : List Char) : Json.skip (':' :: cs) = ':' :: cs := Json.skip_cons rfl
  have hvalue : Json.skip (m.2 ++ rest) = m.2 ++ rest := by
    obtain ⟨c, cs, hc, hws, -⟩ := h.head
    rw [hc]
    exact Json.skip_cons hws
  simp only [Writer.member, Writer.quoted, List.cons_append, List.append_assoc, List.nil_append,
    Json.readMembers, hw.text, Option.bind_eq_bind, Option.bind_some, hcolon, hvalue, h.fails rest hrest,
    Option.bind_none]

theorem Writer.ReadBy.members_none (hw : w.ReadBy number P)
    (h : ∀ m ∈ ms, (∃ v, Given value m.2 v) ∨ Fails value m.2) (hbad : ∃ m ∈ ms, Fails value m.2) (n : Nat)
    (rest : List Char) :
    Json.readMembers value n ([','].intercalate (ms.map w.member) ++ '}' :: rest) = none := by
  induction ms generalizing n with
  | nil =>
    obtain ⟨m, hm, -⟩ := hbad
    cases hm
  | cons m ms ih =>
    cases n with
    | zero => rfl
    | succ n =>
      obtain ⟨hm, hms⟩ := List.forall_mem_cons.mp h
      by_cases hlast : ms = []
      · subst hlast
        obtain ⟨m', hm', hfails⟩ := hbad
        obtain rfl := List.mem_singleton.mp hm'
        rw [List.map_singleton, List.intercalate_singleton]
        exact hw.member_none hfails (Json.stops_cons (.inr (.inr (.inl rfl))) rest) n
      · have hmap : ms.map w.member ≠ [] := by simpa using hlast
        rw [List.map_cons, List.intercalate_cons_of_ne_nil hmap, List.append_assoc, List.append_assoc,
          List.singleton_append]
        rcases hm with ⟨v, hv⟩ | hfails
        · have hheads : ∀ t ∈ ms.map w.member, ∃ c cs, t = c :: cs ∧ Json.isWs c = false ∧ c ≠ ']' := by
            intro t ht
            obtain ⟨m', -, rfl⟩ := List.mem_map.mp ht
            exact w.head_member m'
          obtain ⟨c, cs, hcs, hws, -⟩ := head_intercalate hmap hheads ('}' :: rest)
          have hnext : Json.skip ([','].intercalate (ms.map w.member) ++ '}' :: rest) =
              [','].intercalate (ms.map w.member) ++ '}' :: rest := by
            rw [hcs]
            exact Json.skip_cons hws
          rw [hw.member_next hv _ n, hnext]
          by_cases hrest : ∃ m ∈ ms, Fails value m.2
          · rw [ih hms hrest n, Option.map_none]
          · obtain ⟨m', hm', hfails⟩ := hbad
            rcases List.mem_cons.mp hm' with rfl | hm'
            · have hnone := hfails.fails _ (Json.stops_cons (.inl rfl) [])
              rw [hv.reads _ (Json.stops_cons (.inl rfl) [])] at hnone
              cases hnone
            · exact absurd ⟨m', hm', hfails⟩ hrest
        · exact hw.member_none hfails (Json.stops_cons (.inl rfl) _) n

theorem Writer.ReadBy.head_write (hw : w.ReadBy number P) (hv : WellFormed P v) :
    ∃ c cs, w.write v = c :: cs ∧ Json.isWs c = false ∧ c ≠ ']' :=
  (hw.given_write hv (Nat.lt_succ_self _)).head

theorem exists_deep_item {items : List (JsonValue N)} (h : k ≤ depthItems items) (hk : k ≠ 0) :
    ∃ v ∈ items, k ≤ v.depth := by
  by_contra hall
  push Not at hall
  have hle : depthItems items ≤ k - 1 := depthItems_le fun v hv => Nat.le_sub_one_of_lt (hall v hv)
  omega

theorem exists_deep_member {members : List (String × JsonValue N)} (h : k ≤ depthMembers members)
    (hk : k ≠ 0) : ∃ m ∈ members, k ≤ m.2.depth := by
  by_contra hall
  push Not at hall
  have hle : depthMembers members ≤ k - 1 := depthMembers_le fun m hm => Nat.le_sub_one_of_lt (hall m hm)
  omega

theorem fails_items {texts : List (List Char)} (hlimit : limit ≠ 0)
    (h : ∀ t ∈ texts, (∃ v, Given (readValue number limit) t v) ∨ Fails (readValue number limit) t)
    (hbad : ∃ t ∈ texts, Fails (readValue number limit) t) (rest : List Char) :
    readValue number (limit + 1) ('[' :: ([','].intercalate texts ++ ']' :: rest)) = none := by
  obtain ⟨t, ht, -⟩ := id hbad
  have hheads : ∀ t ∈ texts, ∃ c cs, t = c :: cs ∧ Json.isWs c = false ∧ c ≠ ']' :=
    fun t ht => (h t ht).elim (fun ⟨_, hgiven⟩ => hgiven.head) (·.head)
  obtain ⟨c, cs, hcs, hws, hc⟩ := head_intercalate (List.ne_nil_of_mem ht) hheads (']' :: rest)
  have hnone := readItems_none h hbad ([','].intercalate texts ++ ']' :: rest).length rest
  rw [hcs] at hnone ⊢
  rw [readValue_items hlimit (Json.skip_cons hws) hc, hnone]
  rfl

theorem Writer.ReadBy.fails_members (hw : w.ReadBy number P) (hlimit : limit ≠ 0)
    (h : ∀ m ∈ ms, (∃ v, Given (readValue number limit) m.2 v) ∨ Fails (readValue number limit) m.2)
    (hbad : ∃ m ∈ ms, Fails (readValue number limit) m.2) (rest : List Char) :
    readValue number (limit + 1) ('{' :: ([','].intercalate (ms.map w.member) ++ '}' :: rest)) = none := by
  obtain ⟨m, hm, -⟩ := id hbad
  obtain ⟨cs, hcs⟩ := w.head_members (List.ne_nil_of_mem hm) rest
  have hnone := hw.members_none h hbad ([','].intercalate (ms.map w.member) ++ '}' :: rest).length rest
  rw [hcs] at hnone ⊢
  rw [readValue_members hlimit (Json.skip_cons rfl) (by decide), hnone]
  rfl

theorem Writer.ReadBy.given_or_fails (hw : w.ReadBy number P) (hv : WellFormed P v)
    (hdeep : limit ≤ v.depth → Fails (readValue number limit) (w.write v)) :
    (∃ u, Given (readValue number limit) (w.write v) u) ∨ Fails (readValue number limit) (w.write v) := by
  rcases lt_or_ge v.depth limit with hlt | hge
  · exact .inl ⟨_, hw.given_write hv hlt⟩
  · exact .inr (hdeep hge)

/-- A value that is too deep isn't read. -/
theorem Writer.ReadBy.fails_write (hw : w.ReadBy number P) (hv : WellFormed P v)
    (hlimit : limit ≤ v.depth) : Fails (readValue number limit) (w.write v) := by
  induction v using induct generalizing limit with
  | array items ih =>
    refine ⟨hw.head_write hv, fun rest _ => ?_⟩
    obtain - | - | - | - | hitems := hv
    cases limit with
    | zero => rfl
    | succ limit =>
      rw [Writer.write_array, Writer.listed, List.cons_append, List.append_assoc,
        List.singleton_append]
      by_cases hzero : limit = 0
      · subst hzero
        exact readValue_nested (.inl rfl) _
      · obtain ⟨v, hv, hdeep⟩ := exists_deep_item (Nat.le_of_succ_le_succ hlimit) hzero
        refine fails_items hzero (fun t ht => ?_)
          ⟨_, List.mem_map_of_mem hv, ih v hv (hitems v hv) hdeep⟩ rest
        obtain ⟨v', hv', rfl⟩ := List.mem_map.mp ht
        exact hw.given_or_fails (hitems v' hv') (ih v' hv' (hitems v' hv'))
  | object members ih =>
    refine ⟨hw.head_write hv, fun rest _ => ?_⟩
    obtain - | - | - | - | - | ⟨-, hmembers⟩ := hv
    cases limit with
    | zero => rfl
    | succ limit =>
      have htext : w.write (.object members) =
          Writer.listed '{' '}' (((sortKeys members).map fun m => (m.1, w.write m.2)).map w.member) := by
        rw [Writer.write_object, sortKeys_map]
        rfl
      have hmem {m : String × JsonValue N} : m ∈ sortKeys members ↔ m ∈ members :=
        (sortKeys_perm members).mem_iff
      rw [htext, Writer.listed, List.cons_append, List.append_assoc, List.singleton_append]
      by_cases hzero : limit = 0
      · subst hzero
        exact readValue_nested (.inr rfl) _
      · obtain ⟨m, hm, hdeep⟩ := exists_deep_member (Nat.le_of_succ_le_succ hlimit) hzero
        refine hw.fails_members hzero (fun t ht => ?_)
          ⟨_, List.mem_map_of_mem (hmem.mpr hm), ih m hm (hmembers m hm) hdeep⟩ rest
        obtain ⟨m', hm', rfl⟩ := List.mem_map.mp ht
        have hin := hmem.mp hm'
        exact hw.given_or_fails (hmembers m' hin) (ih m' hin (hmembers m' hin))
  | null =>
    obtain rfl := Nat.le_zero.mp hlimit
    exact ⟨hw.head_write hv, fun rest _ => rfl⟩
  | bool b =>
    obtain rfl := Nat.le_zero.mp hlimit
    exact ⟨hw.head_write hv, fun rest _ => rfl⟩
  | number n =>
    obtain rfl := Nat.le_zero.mp hlimit
    exact ⟨hw.head_write hv, fun rest _ => rfl⟩
  | string s =>
    obtain rfl := Nat.le_zero.mp hlimit
    exact ⟨hw.head_write hv, fun rest _ => rfl⟩

theorem Writer.ReadBy.read_write_none (hw : w.ReadBy number P) (hv : WellFormed P v)
    (hlimit : limit ≤ v.depth) (hblank : ∀ c ∈ blank, Json.isWs c = true) :
    read number limit (w.write v ++ blank) = none := by
  obtain ⟨c, cs, hcs, hws, -⟩ := hw.head_write hv
  have hskip : Json.skip (w.write v ++ blank) = w.write v ++ blank := by
    rw [hcs]
    exact Json.skip_cons hws
  rw [read, hskip, (hw.fails_write hv hlimit).fails blank (stops_blank hblank)]

/-! ### Kept values -/

theorem kept_sorted (hv : WellFormed P v) : v.sorted.kept = v.sorted := by
  induction v using induct with
  | null => rfl
  | bool b => rfl
  | number n => rfl
  | string s => rfl
  | array items ih =>
    obtain - | - | - | - | hitems := hv
    rw [sorted_array_eq, kept, keptItems_eq, List.map_map]
    congr 1
    exact List.map_congr_left fun v hv => ih v hv (hitems v hv)
  | object members ih =>
    obtain - | - | - | - | - | ⟨hkeys, hmembers⟩ := hv
    have hsame : (sortKeys members).map (fun m => (m.1, m.2.sorted.kept)) =
        (sortKeys members).map fun m => (m.1, m.2.sorted) := by
      refine List.map_congr_left fun m hm => ?_
      have hm' := (sortKeys_perm members).mem_iff.mp hm
      rw [ih m hm' (hmembers m hm')]
    rw [sorted_object_eq, sortKeys_map, kept, keptMembers_eq, List.map_map]
    refine congrArg _ ((congrArg _ hsame).trans ?_)
    refine foldl_insert_sorted ?_
    have hsorted := sorted_sortKeys hkeys
    exact List.pairwise_map.mpr hsorted

/-! ### Characters -/

theorem mem_listed {first last : Char} (h : c ∈ Writer.listed first last texts) :
    c = first ∨ c = last ∨ c = ',' ∨ ∃ t ∈ texts, c ∈ t := by
  rcases List.mem_cons.mp h with rfl | h
  · exact .inl rfl
  · rcases List.mem_append.mp h with h | h
    · exact .inr (.inr ((mem_intercalate h).imp_left List.mem_singleton.mp))
    · exact .inr (.inl (List.mem_singleton.mp h))

/-- What holds of the characters of numbers, of those that a string is written with and of the others
holds of a text. -/
theorem Writer.forall_write {S : Char → Prop} (hnumber : ∀ n, P n → ∀ c ∈ w.number n, S c)
    (hescape : ∀ c, ∀ d ∈ w.escape c, S d) (hmarks : ∀ c ∈ "\"[]{},:nulltruefalse".toList, S c)
    (hv : WellFormed P v) : ∀ c ∈ w.write v, S c := by
  have hquoted (s : String) : ∀ c ∈ w.quoted s, S c := by
    intro c hc
    rcases List.mem_cons.mp hc with rfl | hc
    · exact hmarks _ (by decide)
    · rcases List.mem_append.mp hc with hc | hc
      · obtain ⟨d, -, hd⟩ := List.mem_flatMap.mp hc
        exact hescape d c hd
      · rw [List.mem_singleton.mp hc]
        exact hmarks _ (by decide)
  induction v using induct with
  | null =>
    have hsub : ∀ c ∈ "null".toList, c ∈ "\"[]{},:nulltruefalse".toList := by decide
    exact fun c hc => hmarks c (hsub c hc)
  | bool b =>
    have hsub : ∀ c ∈ "true".toList ++ "false".toList, c ∈ "\"[]{},:nulltruefalse".toList := by decide
    cases b with
    | true => exact fun c hc => hmarks c (hsub c (List.mem_append_left _ hc))
    | false => exact fun c hc => hmarks c (hsub c (List.mem_append_right _ hc))
  | number n =>
    obtain - | - | hn := hv
    exact hnumber n hn
  | string s => exact hquoted s
  | array items ih =>
    obtain - | - | - | - | hitems := hv
    intro c hc
    rw [Writer.write_array] at hc
    rcases mem_listed hc with rfl | rfl | rfl | ⟨t, ht, hc⟩
    · exact hmarks _ (by decide)
    · exact hmarks _ (by decide)
    · exact hmarks _ (by decide)
    · obtain ⟨v, hv, rfl⟩ := List.mem_map.mp ht
      exact ih v hv (hitems v hv) c hc
  | object members ih =>
    obtain - | - | - | - | - | ⟨-, hmembers⟩ := hv
    intro c hc
    rw [Writer.write_object, sortKeys_map, List.map_map] at hc
    rcases mem_listed hc with rfl | rfl | rfl | ⟨t, ht, hc⟩
    · exact hmarks _ (by decide)
    · exact hmarks _ (by decide)
    · exact hmarks _ (by decide)
    · obtain ⟨m, hm, rfl⟩ := List.mem_map.mp ht
      have hm' := (sortKeys_perm members).mem_iff.mp hm
      rcases List.mem_append.mp hc with hc | hc
      · exact hquoted m.1 c hc
      · rcases List.mem_cons.mp hc with rfl | hc
        · exact hmarks _ (by decide)
        · exact ih m hm' (hmembers m hm') c hc

end

end JsonValue

end Bmac.Base
