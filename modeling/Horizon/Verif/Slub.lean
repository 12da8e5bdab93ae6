import Horizon.Kernel.Slub
import Horizon.Spec.FreeChain

/-!
# Objects of a slab

The free chain and the live objects are always the objects of the slab, each once.
`SlubInner::allocate` writes the cache over the end of the chain when it first finds the slab
exhausted: a second call on the exhausted slab hands the cache out as an object.
-/

namespace Horizon.Slub

open FreeChain Function Nat
open List hiding chain_cons

/-- The configurations that the constructors accept. -/
inductive Accepted : CacheConfig → Prop
  | new {size : Nat} {config : CacheConfig} (call : CacheConfig.new size = .ok config) :
      Accepted config
  | align {config aligned : CacheConfig} {align : Nat} (earlier : Accepted config)
      (call : config.withAlign align = .ok aligned) : Accepted aligned

/-- A slab has objects, and they fit its bytes. -/
structure CacheConfig.Fits (config : CacheConfig) : Prop where
  objectSize_pos : 0 < config.objectSize
  objectNum_pos : 0 < config.objectNum
  bytes : config.objectNum * config.objectSize ≤ slabSize config.frameOrder

theorem calculateSizes_fits {size align objectSize objectNum order aligned : Nat}
    (call : calculateSizes size align = .ok (objectSize, objectNum, order, aligned)) :
    0 < objectSize ∧ 0 < objectNum ∧ objectNum * objectSize ≤ slabSize order := by
  simp only [calculateSizes, bind, Except.bind, pure, Except.pure, throw, throwThe,
    MonadExceptOf.throw] at call
  split at call
  · cases call
  · rename_i nonzero
    cases found : calculateOrder
        (nextMultipleOf size (calculateAlignment size align) % 2 ^ 16) with
    | error error =>
      simp only [found] at call
      cases call
    | ok chosen =>
      simp only [found] at call
      split at call
      · cases call
      · rename_i some
        cases call
        refine ⟨pos_of_ne_zero nonzero, pos_of_ne_zero some, ?_⟩
        calc _ ≤ slabSize order / _ * _ := Nat.mul_le_mul_right _ (mod_le _ _)
          _ ≤ slabSize order := div_mul_le_self _ _

variable {config : CacheConfig}

theorem Accepted.fits (accepted : Accepted config) : config.Fits := by
  cases accepted with
  | @new size _ call =>
    cases sizes : calculateSizes size minAlign with
    | error error => simp [CacheConfig.new, sizes, bind, Except.bind] at call
    | ok value =>
      simp only [CacheConfig.new, sizes, bind, Except.bind, pure, Except.pure] at call
      cases call
      have fits := calculateSizes_fits sizes
      exact ⟨fits.1, fits.2.1, fits.2.2⟩
  | @align earlier _ align _ call =>
    cases sizes : calculateSizes earlier.objectSize (max align minAlign) with
    | error error => simp [CacheConfig.withAlign, sizes, bind, Except.bind] at call
    | ok value =>
      simp only [CacheConfig.withAlign, sizes, bind, Except.bind, pure, Except.pure] at call
      cases call
      have fits := calculateSizes_fits sizes
      exact ⟨fits.1, fits.2.1, fits.2.2⟩

def spaced (step count start : Nat) : List Nat :=
  (List.range count).map fun index => start + index * step

theorem spaced_succ (step count start : Nat) :
    spaced step (count + 1) start = start :: spaced step count (start + step) := by
  simp only [spaced, range_succ_eq_map, map_cons, map_map]
  congr 1
  · simp
  · apply map_congr_left
    intro index _
    simp only [comp_apply, succ_mul]
    omega

def objects (config : CacheConfig) (base : Nat) : List Nat :=
  spaced config.objectSize config.objectNum base

variable {base object objectSize : Nat}

@[simp] theorem length_objects (config : CacheConfig) (base : Nat) :
    (objects config base).length = config.objectNum := by
  simp [objects, spaced]

theorem mem_objects : object ∈ objects config base ↔
      ∃ index < config.objectNum, object = base + index * config.objectSize := by
  simp [objects, spaced, eq_comm]

theorem nodup_objects (fits : config.Fits) (base : Nat) : (objects config base).Nodup := by
  refine List.Nodup.map ?_ nodup_range
  intro left right same
  exact eq_of_mul_eq_mul_right fits.objectSize_pos (Nat.add_left_cancel same)

theorem object_inside (fits : config.Fits) (belongs : object ∈ objects config base) :
    base ≤ object ∧ object + config.objectSize ≤ base + slabSize config.frameOrder := by
  obtain ⟨index, below, rfl⟩ := mem_objects.mp belongs
  have last : (index + 1) * config.objectSize ≤ slabSize config.frameOrder :=
    (Nat.mul_le_mul_right _ below).trans fits.bytes
  rw [succ_mul] at last
  omega

theorem initLoop_below {left current address : Nat} {mem : Nat → Nat} (below : address < current) :
    initLoop objectSize left current mem address = mem address := by
  induction left generalizing current mem with
  | zero => exact update_of_ne below.ne _ _
  | succ left ih =>
    rw [initLoop, ih (by omega), update_of_ne below.ne]

theorem initLoop_chain (positive : 0 < objectSize) (left current : Nat) (mem : Nat → Nat) :
    Chain (initLoop objectSize left current mem) 0 current
      (spaced objectSize (left + 1) current) := by
  induction left generalizing current mem with
  | zero => simp [initLoop, spaced]
  | succ left ih =>
    rw [spaced_succ, chain_cons]
    refine ⟨rfl, ?_⟩
    rw [initLoop, initLoop_below (by omega), update_self]
    exact ih _ _

/-- The slab with the objects that are not freed yet. -/
structure Session where
  slab : SlubInner
  live : List Nat

/-- The calls of a session. -/
inductive SlubCall
  /-- `allocate`, with the cache it is called for. -/
  | allocate (memCache : Nat)
  | deallocate (object : Nat)
  | write (object word : Nat)
  deriving DecidableEq

namespace Session

def fresh (config : CacheConfig) (base : Nat) (mem : Nat → Nat) : Session :=
  ⟨SlubInner.new config base mem, []⟩

def apply (s : Session) : SlubCall → Session
  | .allocate memCache =>
    match s.slab.allocate memCache with
    | (some object, slab) => ⟨slab, object :: s.live⟩
    | (none, slab) => ⟨slab, s.live⟩
  | .deallocate object => ⟨s.slab.deallocate object, s.live.erase object⟩
  | .write object word =>
    ⟨{ s.slab with mem := Function.update s.slab.mem object word }, s.live⟩

/-- Only live objects are freed and written. -/
def Allowed (s : Session) : SlubCall → Prop
  | .allocate memCache => memCache ≠ 0
  | .deallocate object => object ∈ s.live
  | .write object _ => object ∈ s.live

instance (s : Session) : (call : SlubCall) → Decidable (s.Allowed call)
  | .allocate memCache => inferInstanceAs (Decidable (memCache ≠ 0))
  | .deallocate object => inferInstanceAs (Decidable (object ∈ s.live))
  | .write object _ => inferInstanceAs (Decidable (object ∈ s.live))

/-- Every call is allowed where it happens. -/
def AllowedFrom : Session → List SlubCall → Prop
  | _, [] => True
  | s, call :: rest => s.Allowed call ∧ AllowedFrom (s.apply call) rest

instance decidableAllowedFrom : (s : Session) → (calls : List SlubCall) →
    Decidable (s.AllowedFrom calls)
  | _, [] => .isTrue trivial
  | s, call :: rest =>
    have := decidableAllowedFrom (s.apply call) rest
    inferInstanceAs (Decidable (_ ∧ _))

/-- All objects of the slab are live. -/
def AllLive (config : CacheConfig) (base : Nat) (s : Session) : Prop :=
  ∀ object ∈ objects config base, object ∈ s.live

instance (config : CacheConfig) (base : Nat) (s : Session) : Decidable (AllLive config base s) :=
  inferInstanceAs (Decidable (∀ object ∈ objects config base, object ∈ s.live))

/-- What `allocate` must return. -/
structure AllocateRight (config : CacheConfig) (base : Nat) (s : Session)
    (result : Option Nat) : Prop where
  distinct : ∀ object, result = some object → object ∉ s.live
  placed : ∀ object, result = some object →
    ∃ index < config.objectNum, object = base + index * config.objectSize
  inside : ∀ object, result = some object →
    base ≤ object ∧ object + config.objectSize ≤ base + slabSize config.frameOrder
  exhausted : AllLive config base s → result = none
  available : s.live.length < config.objectNum → result.isSome

/-- Every allocation of the run is right, and no object is live twice. -/
def Behaves (config : CacheConfig) (base : Nat) : Session → List SlubCall → Prop
  | s, [] => s.live.Nodup
  | s, call :: rest =>
    s.live.Nodup ∧
      (∀ memCache, call = .allocate memCache →
        AllocateRight config base s (s.slab.allocate memCache).1) ∧
      Behaves config base (s.apply call) rest

def exhaustedCalls (config : CacheConfig) (base : Nat) : Session → List SlubCall → Nat
  | _, [] => 0
  | s, call :: rest =>
    (match call with
      | .allocate _ => if AllLive config base s then 1 else 0
      | _ => 0) + exhaustedCalls config base (s.apply call) rest

/-- The free chain and the live objects are the objects of the slab. -/
structure Balanced (config : CacheConfig) (base stop : Nat) (s : Session) (free : List Nat) :
    Prop where
  chain : Chain s.slab.mem stop s.slab.ptr free
  objects_perm : (free ++ s.live).Perm (objects config base)
  inuse : s.slab.inuse = s.live.length

section Steps

variable {config : CacheConfig} {base stop : Nat} {s : Session} {free : List Nat}

theorem fresh_balanced (fits : config.Fits) (base : Nat) (mem : Nat → Nat) :
    Balanced config base 0 (fresh config base mem) (objects config base) where
  chain := by
    have positive := fits.objectNum_pos
    have chain := initLoop_chain fits.objectSize_pos (config.objectNum - 1) base mem
    rw [Nat.sub_add_cancel positive] at chain
    exact chain
  objects_perm := by simp [fresh]
  inuse := rfl

section

variable (balanced : Balanced config base stop s free)
include balanced

theorem Balanced.nodup (fits : config.Fits) : (free ++ s.live).Nodup :=
  balanced.objects_perm.nodup_iff.mpr (nodup_objects fits base)

theorem Balanced.allLive_iff (fits : config.Fits) : AllLive config base s ↔ free = [] := by
  constructor
  · intro all
    cases free with
    | nil => rfl
    | cons object rest =>
      have belongs := balanced.objects_perm.mem_iff.mp (mem_cons_self (l := rest ++ s.live))
      have live := all object belongs
      have nodup := balanced.nodup fits
      simp [live] at nodup
  · intro empty object belongs
    have found := balanced.objects_perm.mem_iff.mpr belongs
    simpa [empty] using found

theorem Balanced.length : free.length + s.live.length = config.objectNum := by
  have same := balanced.objects_perm.length_eq
  rwa [length_append, length_objects] at same

end

theorem Balanced.allocate_free {rest : List Nat}
    (balanced : Balanced config base stop s (object :: rest)) (placed : 0 < base) (memCache : Nat) :
    s.slab.allocate memCache =
        (some object, { s.slab with ptr := s.slab.mem object, inuse := s.slab.inuse + 1 }) ∧
      Balanced config base stop (s.apply (.allocate memCache)) rest := by
  have head : s.slab.ptr = object := balanced.chain.1
  have belongs := balanced.objects_perm.mem_iff.mp (mem_cons_self (l := rest ++ s.live))
  obtain ⟨index, _, position⟩ := mem_objects.mp belongs
  have call : s.slab.allocate memCache =
      (some object, { s.slab with ptr := s.slab.mem object, inuse := s.slab.inuse + 1 }) := by
    rw [SlubInner.allocate, if_neg (by omega), head]
  refine ⟨call, ?_⟩
  simp only [apply, call]
  refine ⟨balanced.chain.2, ?_, ?_⟩
  · exact List.perm_middle.trans balanced.objects_perm
  · rw [balanced.inuse, length_cons]

theorem Balanced.allocate_exhausted (balanced : Balanced config base 0 s []) (memCache : Nat) :
    s.slab.allocate memCache = (none, { s.slab with ptr := memCache }) ∧
      Balanced config base memCache (s.apply (.allocate memCache)) [] := by
  have call : s.slab.allocate memCache = (none, { s.slab with ptr := memCache }) := by
    have head : s.slab.ptr = 0 := balanced.chain
    rw [SlubInner.allocate, if_pos head]
  refine ⟨call, ?_⟩
  simp only [apply, call]
  exact ⟨rfl, balanced.objects_perm, balanced.inuse⟩

theorem Balanced.allocate_stop (balanced : Balanced config base stop s []) (dirty : stop ≠ 0)
    (memCache : Nat) : (s.slab.allocate memCache).1 = some stop := by
  have head : s.slab.ptr = stop := balanced.chain
  rw [SlubInner.allocate, if_neg (head ▸ dirty), head]

section

variable {object : Nat} (balanced : Balanced config base stop s free) (fits : config.Fits)
  (live : object ∈ s.live)
include balanced fits live

theorem Balanced.deallocate :
    Balanced config base stop (s.apply (.deallocate object)) (object :: free) where
  chain := by
    have outside : object ∉ free := fun inside =>
      disjoint_of_nodup_append (balanced.nodup fits) inside live
    exact balanced.chain.push outside
  objects_perm := by
    have moved : (object :: (free ++ s.live.erase object)).Perm (free ++ s.live) :=
      List.perm_middle.symm.trans (Perm.append_left _ (perm_cons_erase live).symm)
    exact moved.trans balanced.objects_perm
  inuse := by
    have shorter := length_erase_of_mem live
    simp only [apply, SlubInner.deallocate, balanced.inuse, shorter]

theorem Balanced.write (word : Nat) :
    Balanced config base stop (s.apply (.write object word)) free where
  chain := by
    have outside : object ∉ free := fun inside =>
      disjoint_of_nodup_append (balanced.nodup fits) inside live
    exact balanced.chain.update outside
  objects_perm := balanced.objects_perm
  inuse := balanced.inuse

end

theorem Balanced.allocateRight {rest : List Nat}
    (balanced : Balanced config base stop s (object :: rest)) (fits : config.Fits) :
    AllocateRight config base s (some object) := by
  have belongs := balanced.objects_perm.mem_iff.mp (mem_cons_self (l := rest ++ s.live))
  have outside : object ∉ s.live := fun live =>
    disjoint_of_nodup_append (balanced.nodup fits) mem_cons_self live
  refine ⟨?_, ?_, ?_, ?_, fun _ => rfl⟩
  · rintro _ ⟨⟩
    exact outside
  · rintro _ ⟨⟩
    exact mem_objects.mp belongs
  · rintro _ ⟨⟩
    exact object_inside fits belongs
  · intro all
    exact absurd (all object belongs) outside

theorem Balanced.allocateRight_none (balanced : Balanced config base stop s []) :
    AllocateRight config base s none := by
  have length := balanced.length
  rw [length_nil, zero_add] at length
  refine ⟨nofun, nofun, nofun, fun _ => rfl, fun fewer => ?_⟩
  omega

theorem Balanced.behaves_iff (balanced : Balanced config base stop s free) (fits : config.Fits)
    (placed : 0 < base) (calls : List SlubCall) (allowed : s.AllowedFrom calls) :
    Behaves config base s calls ↔
      exhaustedCalls config base s calls + (if stop = 0 then 0 else 1) ≤ 1 := by
  induction calls generalizing s stop free with
  | nil =>
    have nodup := (List.nodup_append.mp (balanced.nodup fits)).2.1
    have small : (if stop = 0 then 0 else 1) ≤ 1 := by split <;> omega
    simpa [Behaves, exhaustedCalls, nodup] using small
  | cons call rest ih =>
    have nodup := (List.nodup_append.mp (balanced.nodup fits)).2.1
    obtain ⟨now, later⟩ := allowed
    cases call with
    | deallocate object =>
      have next := ih (balanced.deallocate fits now) later
      simpa [Behaves, exhaustedCalls, nodup] using next
    | write object word =>
      have next := ih (balanced.write fits now word) later
      simpa [Behaves, exhaustedCalls, nodup] using next
    | allocate memCache =>
      have all := balanced.allLive_iff fits
      cases free with
      | cons object others =>
        obtain ⟨call, after⟩ := balanced.allocate_free placed memCache
        have right := balanced.allocateRight fits
        have next := ih after later
        simpa [Behaves, exhaustedCalls, nodup, call, right, all] using next
      | nil =>
        by_cases clean : stop = 0
        · -- The first exhausted call: the cache becomes the end of the chain.
          subst clean
          obtain ⟨call, after⟩ := balanced.allocate_exhausted memCache
          have right := balanced.allocateRight_none
          have next := ih after later
          rw [if_neg now] at next
          simpa [Behaves, exhaustedCalls, nodup, call, right, all, add_comm] using next
        · -- A later one: the end of the chain is handed out.
          have call := balanced.allocate_stop clean memCache
          constructor
          · intro behaves
            have right := behaves.2.1 memCache rfl
            rw [call] at right
            exact absurd (right.exhausted (all.mpr rfl)) nofun
          · intro few
            simp [exhaustedCalls, all, clean] at few

end Steps

end Session

/-- In every sequence of calls on a fresh slab of an accepted layout, the calls return distinct
objects of the slab, none when all are live and one when not, exactly when at most one `allocate`
is made while every object is live. -/
theorem slab_behaves_iff (accepted : Accepted config) {base : Nat}
    (placed : 0 < base) (mem : Nat → Nat) (calls : List SlubCall)
    (allowed : (Session.fresh config base mem).AllowedFrom calls) :
    Session.Behaves config base (Session.fresh config base mem) calls ↔
      Session.exhaustedCalls config base (Session.fresh config base mem) calls ≤ 1 := by
  have fits := accepted.fits
  have balanced := Session.fresh_balanced fits base mem
  simpa using balanced.behaves_iff fits placed calls allowed

/-- The layout of `kmalloc-2k`: two objects in one page. -/
def twoObjects : CacheConfig := ⟨2048, 2, 0, 64, 5⟩

theorem twoObjects_accepted : Accepted twoObjects :=
  @Accepted.new 2048 _ (by decide +kernel)

def twoFresh : Session := Session.fresh twoObjects 4096 fun _ => 0

/-- Two objects are taken, the slab is found exhausted once, and an object given back is taken
again. -/
theorem slab_behaves_twoObjects : Session.Behaves twoObjects 4096 twoFresh
      [.allocate 512, .allocate 512, .allocate 512, .deallocate 6144, .allocate 512] :=
  (slab_behaves_iff twoObjects_accepted (by decide) (fun _ => 0) _ (by decide)).mpr (by decide)

/-- A second call on the exhausted slab hands out the cache itself. -/
theorem slab_hands_out_cache : twoFresh.AllowedFrom (replicate 4 (.allocate 512)) ∧
      (((twoFresh.apply (.allocate 512)).apply (.allocate 512)).AllLive twoObjects 4096) ∧
      ((((twoFresh.apply (.allocate 512)).apply (.allocate 512)).apply
        (.allocate 512)).slab.allocate 512).1 = some 512 ∧
      ¬ Session.Behaves twoObjects 4096 twoFresh (replicate 4 (.allocate 512)) := by
  refine ⟨by decide, by decide, by decide, ?_⟩
  intro behaves
  have right := behaves.2.2.2.2.2.2.2.1 512 rfl
  exact absurd (right.exhausted (by decide)) (by decide)

end Horizon.Slub
