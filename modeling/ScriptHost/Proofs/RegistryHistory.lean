import ScriptHost.Registry

/-! A log of objects against the account that its callers can keep of their calls and the answers:
which objects they registered, which values they overwrote, how often they released all. Every
state that calls lead to agrees with the account. -/
namespace ScriptHost.Registry

variable {kind : ObjectKind} {α β : Type}

inductive Call (α : Type) where
  | register (a : α)
  | get (bits : UInt64)
  | overwrite (bits : UInt64) (a : α)
  | release

inductive Answer (kind : ObjectKind) (α : Type) where
  | registered (result : Outcome (Handle kind))
  /-- The object that a handle reached, before any overwriting. -/
  | found (result : Outcome α)
  | released (objects : List α)

structure Event (kind : ObjectKind) (α : Type) where
  call : Call α
  answer : Answer kind α

def call (r : Registry kind α) : Call α → Answer kind α × Registry kind α
  | .register a =>
    let (result, r) := r.register a
    (.registered result, r)
  | .get bits => (.found (r.get (.ofBits bits)), r)
  | .overwrite bits a =>
    let (result, r) := r.modify (.ofBits bits) fun old => (.ok old, a)
    (.found result, r)
  | .release =>
    let (objects, r) := r.release
    (.released objects, r)

def run (r : Registry kind α) : List (Call α) → List (Event kind α) × Registry kind α
  | [] => ([], r)
  | c :: rest =>
    let (answer, r) := r.call c
    let (events, r) := r.run rest
    (⟨c, answer⟩ :: events, r)

/-- What calls and their answers tell, without a look into the log. -/
structure Account (kind : ObjectKind) (α : Type) where
  /-- All objects in the order of their registration, each with its latest value. -/
  objects : List α
  live : List α
  /-- The handles answered since the last release. -/
  issued : List (Handle kind)
  /-- What the releases answered, one answer behind the other. -/
  returned : List α
  registrations : Nat
  releases : Nat

namespace Account

def start : Account kind α := ⟨[], [], [], [], 0, 0⟩

/-- An overwritten object keeps its place among the live ones, and among all. -/
def record (t : Account kind α) : Event kind α → Account kind α
  | ⟨.register a, .registered (.ok h)⟩ =>
    { t with
      objects := t.objects ++ [a]
      live := t.live ++ [a]
      issued := t.issued ++ [h]
      registrations := t.registrations + 1 }
  | ⟨.overwrite bits a, .found (.ok _)⟩ =>
    let index := bits.toNat % UInt32.size
    { t with
      objects := t.objects.set (t.objects.length - t.live.length + index) a
      live := t.live.set index a }
  | ⟨.release, .released objects⟩ =>
    { t with live := [], issued := [], returned := t.returned ++ objects, releases := t.releases + 1 }
  | _ => t

def of (events : List (Event kind α)) : Account kind α := events.foldl record start

/-- The high half of the word counts the releases, up to multiples of 2^32, and its low half is a
position among the live objects. -/
def Names (t : Account kind α) (bits : UInt64) : Prop :=
  bits.toNat / UInt32.size = t.releases % UInt32.size ∧ bits.toNat % UInt32.size < t.live.length

/-- The handle that the log issues for its object number `k`. -/
def handleAt (generation : UInt32) (k : Nat) : Handle kind := ⟨UInt32.ofNat k, generation⟩

structure Agrees (t : Account kind α) (r : Registry kind α) : Prop where
  live : r.toList = t.live
  generation : r.generation.toNat = t.releases % UInt32.size
  releases : r.releases = t.releases
  allocated : r.allocated = t.registrations
  registrations : t.objects.length = t.registrations
  objects : t.objects = t.returned ++ t.live
  issued : t.issued = (List.range t.live.length).map (handleAt r.generation)
  bound : t.live.length ≤ UInt32.size

theorem agrees_start (limit : Option Nat) :
    (start : Account kind α).Agrees (empty limit : Registry kind α) := by
  constructor <;> simp [start, empty, toList]

variable {t : Account kind α} {r : Registry kind α}

theorem Agrees.length_live (agrees : t.Agrees r) : t.live.length = r.size := by
  rw [← agrees.live, length_toList]

theorem agrees_register (agrees : t.Agrees r) (a : α) :
    (t.record ⟨.register a, .registered (r.register a).1⟩).Agrees (r.register a).2 := by
  by_cases full : r.isFull
  · rw [register_of_isFull full]
    exact agrees
  · have size := agrees.length_live
    have room := size_lt_of_not_isFull full
    rw [register_of_not_isFull full]
    constructor
    · simp [record, toList_push, agrees.live]
    · exact agrees.generation
    · exact agrees.releases
    · simp [record, agrees.allocated]
    · simp [record, agrees.registrations]
    · simp [record, agrees.objects]
    · simp only [record, List.length_append, List.length_singleton, List.range_succ, List.map_append,
        List.map_cons, List.map_nil, agrees.issued, size]
      rfl
    · simp only [record, List.length_append, List.length_singleton]
      omega

/-- Behind the objects that earlier releases returned, the live ones stand in place. -/
theorem set_objects (agrees : t.Agrees r) (index : Nat) (a : α) :
    t.objects.set (t.objects.length - t.live.length + index) a =
      t.returned ++ t.live.set index a := by
  have position : t.objects.length - t.live.length + index = t.returned.length + index := by
    rw [agrees.objects, List.length_append]
    omega
  rw [position, agrees.objects, List.set_append_right _ _ (Nat.le_add_right _ _)]
  simp

theorem agrees_overwrite (agrees : t.Agrees r) (bits : UInt64) (a : α) :
    (t.record ⟨.overwrite bits a, .found (r.modify (.ofBits bits) fun old => (.ok old, a)).1⟩).Agrees
      (r.modify (.ofBits bits) fun old => (.ok old, a)).2 := by
  by_cases live : r.Resolves (.ofBits bits)
  · obtain ⟨old, found⟩ := get_of_resolves live
    rw [modify_of_get found]
    constructor
    · simp [record, agrees.live]
    · exact agrees.generation
    · exact agrees.releases
    · exact agrees.allocated
    · simpa [record] using agrees.registrations
    · exact set_objects agrees (bits.toNat % UInt32.size) a
    · simpa [record] using agrees.issued
    · simpa [record] using agrees.bound
  · rw [modify_of_not_resolves live]
    exact agrees

theorem agrees_release (agrees : t.Agrees r) :
    (t.record ⟨.release, .released r.release.1⟩).Agrees r.release.2 := by
  have generation := agrees.generation
  constructor
  · rfl
  · simp only [record, generation_release, UInt32.toNat_add, UInt32.toNat_one, generation]
    exact Nat.mod_add_mod ..
  · simp [record, release, agrees.releases]
  · exact agrees.allocated
  · exact agrees.registrations
  · simp [record, agrees.objects, agrees.live]
  · simp [record]
  · simp [record]

theorem agrees_call (agrees : t.Agrees r) (c : Call α) :
    (t.record ⟨c, (r.call c).1⟩).Agrees (r.call c).2 := by
  cases c with
  | register a => exact agrees_register agrees a
  | get bits => exact agrees
  | overwrite bits a => exact agrees_overwrite agrees bits a
  | release => exact agrees_release agrees

theorem agrees_run (agrees : t.Agrees r) (calls : List (Call α)) :
    ((r.run calls).1.foldl record t).Agrees (r.run calls).2 := by
  induction calls generalizing t r with
  | nil => exact agrees
  | cons c rest ih => exact ih (agrees_call agrees c)

theorem resolves_ofBits_iff (agrees : t.Agrees r) (bits : UInt64) :
    r.Resolves (.ofBits bits) ↔ t.Names bits := by
  rw [Resolves, Names, ← UInt32.toNat_inj, agrees.generation, agrees.length_live]
  simp

theorem issued_getElem? (agrees : t.Agrees r) {k : Nat} {h : Handle kind}
    (issued : t.issued[k]? = some h) :
    h.index.toNat = k ∧ h.generation.toNat = t.releases % UInt32.size := by
  have bound := agrees.bound
  simp only [agrees.issued, List.getElem?_map, Option.map_eq_some_iff, List.getElem?_eq_some_iff,
    List.getElem_range, List.length_range] at issued
  obtain ⟨position, ⟨inside, rfl⟩, rfl⟩ := issued
  exact ⟨UInt32.toNat_ofNat_of_lt' (Nat.lt_of_lt_of_le inside bound), agrees.generation⟩

end Account

/-- The log of any kind and limit after any calls: what it holds, what its handles are, what every
word of 64 bits reaches as a handle, what releases and the live objects make together, and what its
counters say. -/
theorem run_agrees_with_account (limit : Option Nat) (calls : List (Call α)) :
    let log := ((empty limit : Registry kind α).run calls).2
    let account := Account.of ((empty limit : Registry kind α).run calls).1
    (log.toList = account.live ∧ log.size = account.live.length) ∧
    (log.release.1 = account.live ∧ log.release.2.toList = []) ∧
    (account.issued.length = account.live.length ∧
      ∀ (k : Nat) (h : Handle kind), account.issued[k]? = some h →
        h.index.toNat = k ∧ h.generation.toNat = account.releases % UInt32.size) ∧
    (∀ bits : UInt64, account.Names bits →
      ∃ a, account.live[bits.toNat % UInt32.size]? = some a ∧ log.get (.ofBits bits) = .ok a ∧
        ∀ f : α → Outcome β × α, (log.modify (.ofBits bits) f).1 = (f a).1 ∧
          (log.modify (.ofBits bits) f).2.toList =
            account.live.set (bits.toNat % UInt32.size) (f a).2) ∧
    (∀ bits : UInt64, ¬ account.Names bits →
      log.get (.ofBits bits) = .error (.staleHandle kind) ∧
        ∀ f : α → Outcome β × α,
          log.modify (.ofBits bits) f = (.error (.staleHandle kind), log)) ∧
    account.returned ++ log.toList = account.objects ∧
    (log.allocated = account.registrations ∧ account.objects.length = account.registrations ∧
      log.releases = account.releases) := by
  intro log account
  have agrees : account.Agrees log := Account.agrees_run (Account.agrees_start limit) calls
  refine ⟨⟨agrees.live, agrees.length_live.symm⟩, ⟨agrees.live, rfl⟩, ⟨?_, ?_⟩, ?_, ?_, ?_,
    agrees.allocated, agrees.registrations, agrees.releases⟩
  · simp [agrees.issued]
  · intro k h issued
    exact Account.issued_getElem? agrees issued
  · intro bits names
    obtain ⟨a, found⟩ := get_of_resolves ((Account.resolves_ofBits_iff agrees bits).mpr names)
    have entry := (get_eq_ok_iff.mp found).2
    rw [Handle.toNat_index_ofBits, agrees.live] at entry
    refine ⟨a, entry, found, fun f => ?_⟩
    rw [modify_of_get found]
    exact ⟨rfl, by simp [agrees.live]⟩
  · intro bits unnamed
    have stale : ¬ log.Resolves (.ofBits bits) :=
      fun resolves => unnamed ((Account.resolves_ofBits_iff agrees bits).mp resolves)
    exact ⟨get_of_not_resolves stale, modify_of_not_resolves stale⟩
  · rw [agrees.live, agrees.objects]

/-- A log with room for two: the third object is refused, and what is overwritten keeps its place. -/
example :
    let calls : List (Call Nat) :=
      [.register 5, .register 6, .register 7, .overwrite 0 8, .release, .register 9]
    let log := ((empty (some 2) : Registry .string Nat).run calls).2
    let account := Account.of ((empty (some 2) : Registry .string Nat).run calls).1
    (log.toList, log.allocated, log.releases) = ([9], 3, 1) ∧
      [0, 0x100000000].map (fun bits => (log.get (.ofBits bits)).toOption) = [none, some 9] ∧
      account.objects = [8, 6, 9] ∧ account.returned = [8, 6] := by
  decide

end ScriptHost.Registry
