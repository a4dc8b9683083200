/-
  LkpExtent formalization — the dispatcher of `lkpDispatcher.h`.

  The classes of messages are `Class t` for the descriptors `t`, and a `Message` may be of
  any of them.  A callback gives `ρ`, what the handler does.

  * `CallbackT`: a callback for one class.  It casts the message that it is called with to
    its class, and asserts that the cast succeeds;
  * `Dispatcher`: the callbacks by descriptor.  A callback is stored under the descriptor of
    its class, so that the assertion never fails;
  * `onProtobufMessage_registerAll`: the last callback registered for a class gets its
    messages, the default callback all others.
-/
import Mathlib.Logic.Function.Basic
import Mathlib.Data.List.Induction

namespace LkpExtent

section
variable {T : Type} {Class : T → Type} {ρ : Type}

/-- `CallbackT<type>`. -/
structure CallbackT (Class : T → Type) (ρ : Type) where
  type : T
  callback_ : Class type → ρ

variable [DecidableEq T]

/-- `down_pointer_cast<t>`: a null pointer if the message is of another class. -/
def down_pointer_cast (t : T) (message : (t : T) × Class t) : Option (Class t) :=
  if h : message.1 = t then some (h ▸ message.2) else none

/-- `CallbackT::onMessage`, undefined if the assertion fails. -/
def CallbackT.onMessage (it : CallbackT Class ρ) (message : (t : T) × Class t) : Option ρ :=
  (down_pointer_cast it.type message).map it.callback_

theorem CallbackT.onMessage_self (it : CallbackT Class ρ) (message : Class it.type) :
    it.onMessage ⟨it.type, message⟩ = some (it.callback_ message) := by
  simp [onMessage, down_pointer_cast]

theorem CallbackT.onMessage_of_ne {it : CallbackT Class ρ} {message : (t : T) × Class t}
    (h : message.1 ≠ it.type) : it.onMessage message = none := by
  simp [onMessage, down_pointer_cast, h]

variable (Class ρ) in
/-- `lkpDispatcher`. -/
structure Dispatcher where
  callbacks_ : T → Option (CallbackT Class ρ) := fun _ => none
  defaultCallback_ : (t : T) × Class t → ρ
  keyed : ∀ t it, callbacks_ t = some it → it.type = t := by exact nofun

namespace Dispatcher
variable (d : Dispatcher Class ρ)

/-- `lkpDispatcher::onProtobufMessage`. -/
def onProtobufMessage (message : (t : T) × Class t) : Option ρ :=
  match d.callbacks_ message.1 with
  | some it => it.onMessage message
  | none => some (d.defaultCallback_ message)

/-- `lkpDispatcher::registerMessageCallback`. -/
def registerMessageCallback (it : CallbackT Class ρ) : Dispatcher Class ρ where
  callbacks_ := Function.update d.callbacks_ it.type (some it)
  defaultCallback_ := d.defaultCallback_
  keyed t it' h := by
    by_cases ht : t = it.type
    · subst ht
      rw [Function.update_self] at h
      cases h; rfl
    · rw [Function.update_of_ne ht] at h
      exact d.keyed t it' h

/-- Callbacks registered one after the other, as in the constructors. -/
def registerAll (its : List (CallbackT Class ρ)) : Dispatcher Class ρ :=
  its.foldl registerMessageCallback d

/-- The cast of a callback gets a message of its class. -/
theorem onProtobufMessage_isSome (message : (t : T) × Class t) : (d.onProtobufMessage message).isSome := by
  obtain ⟨t, message⟩ := message
  simp only [onProtobufMessage]
  cases hit : d.callbacks_ t with
  | none => rfl
  | some it =>
    obtain rfl := d.keyed t it hit
    simp only [CallbackT.onMessage_self, Option.isSome_some]

/-- What one more registration changes. -/
theorem onProtobufMessage_register (it : CallbackT Class ρ) (message : (t : T) × Class t) :
    (d.registerMessageCallback it).onProtobufMessage message =
      (it.onMessage message).or (d.onProtobufMessage message) := by
  obtain ⟨t, message⟩ := message
  simp only [onProtobufMessage, registerMessageCallback]
  by_cases ht : t = it.type
  · subst ht
    simp only [Function.update_self, CallbackT.onMessage_self, Option.some_or]
  · rw [Function.update_of_ne ht, CallbackT.onMessage_of_ne ht, Option.none_or]

theorem registerAll_concat (its : List (CallbackT Class ρ)) (it : CallbackT Class ρ) :
    d.registerAll (its ++ [it]) = (d.registerAll its).registerMessageCallback it := by
  rw [registerAll, List.foldl_append]; rfl

/-- **A message goes to the last callback registered for its class**, else to the default, and the
    assertion on the cast does not fail. -/
theorem onProtobufMessage_registerAll (its : List (CallbackT Class ρ)) (message : (t : T) × Class t) :
    (d.registerAll its).onProtobufMessage message =
      (its.reverse.findSome? fun it => it.onMessage message).or (d.onProtobufMessage message) ∧
    ((d.registerAll its).onProtobufMessage message).isSome = true := by
  refine ⟨?_, onProtobufMessage_isSome _ _⟩
  induction its using List.reverseRecOn with
  | nil => rfl
  | append_singleton its it ih =>
    rw [registerAll_concat, onProtobufMessage_register, ih, List.reverse_append, List.reverse_singleton,
      List.singleton_append, List.findSome?_cons]
    cases it.onMessage message with
    | none => rfl
    | some r => rfl

end Dispatcher

end

end LkpExtent
