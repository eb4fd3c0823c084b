import Baileyrs.FacadeClose
import Baileyrs.InsertionMap
import Baileyrs.JsString

/-!
# Listeners of the web socket facade

The facade asks the client for raw nodes as long as somebody listens to them. It watches its
own emitter, or one that it was given: what changes listeners runs inside a bracket, and the
outermost bracket tells the client whether the answer has changed. Listeners are any code
that calls the facade again, and may throw.
-/

namespace Baileyrs.WebSocketClient

open JsString LabelledRuns

section Emitters

/-- Name of an event. -/
inductive EventName where
  /-- A text. -/
  | text (t : JsString)
  /-- A symbol. -/
  | symbol (id : ℕ)
  deriving DecidableEq

/-- A listener: a function of the user, or one that runs another one once. -/
inductive Listener where
  /-- A function. -/
  | callback (id : ℕ)
  /-- A wrapper of its own. -/
  | onceWrapper (token : ℕ) (listener : Listener)
  deriving DecidableEq

/-- Listeners by the event they listen to. -/
abbrev Table := InsertionMap EventName (List Listener)

/-- Methods that change listeners or call them. -/
inductive Method where
  | on (event : EventName) (listener : Listener)
  | addListener (event : EventName) (listener : Listener)
  | once (event : EventName) (listener : Listener)
  | prependListener (event : EventName) (listener : Listener)
  | prependOnceListener (event : EventName) (listener : Listener)
  | removeListener (event : EventName) (listener : Listener)
  | off (event : EventName) (listener : Listener)
  | removeAllListeners (event : Option EventName)
  | emit (event : EventName)

/-- Event before a listener is added. -/
def newListener : EventName := .text (ofString "newListener")

/-- Event behind the removal of a listener. -/
def listenerRemoved : EventName := .text (ofString "removeListener")

/-- Event that throws where nobody listens. -/
def errorEvent : EventName := .text (ofString "error")

/-- Put a listener in front of the others of its event, or behind them. -/
def Table.insert (table : Table) (event : EventName) (listener : Listener) (front : Bool) : Table :=
  let listeners := (table.get event).getD []
  table.set event (if front then listener::listeners else listeners++[listener])

/-- A listener is removed under its own name and under that of the one that it wraps. -/
def Listener.isFor (listener wanted : Listener) : Bool :=
  listener = wanted || match listener with
    | .callback _ => false
    | .onceWrapper _ inner => inner = wanted

/-- The listeners without the last one that is for another, if there is one. -/
def removeLast (wanted : Listener) : List Listener → Option (List Listener)
  | [] => none
  | listener::rest =>
    match removeLast wanted rest with
    | some shorter => some (listener::shorter)
    | none => if listener.isFor wanted then some rest else none

/-- Remove a listener; an event without listeners is gone. -/
def Table.erase (table : Table) (event : EventName) (listener : Listener) : Option Table :=
  (removeLast listener ((table.get event).getD [])).map fun listeners =>
    if listeners = [] then table.delete event else table.set event listeners

end Emitters

section Model

/-- Prefix of the events of raw nodes by their content. -/
def callbackPrefix : JsString := ofString "CB:"

/-- Prefix of the events of raw nodes by their id. -/
def tagPrefix : JsString := ofString "TAG:"

/-- An event of raw nodes. -/
def isRawNodeEventName : EventName → Bool
  | .text t => callbackPrefix.isPrefixOf t || tagPrefix.isPrefixOf t
  | .symbol _ => false

/-- The emitter that a facade watches. -/
inductive Mode where
  /-- Its own: the methods that the emitter calls on itself are those of the facade. -/
  | own
  /-- One that it was given: they are those of the emitter. -/
  | injected
  deriving DecidableEq

/-- The facade with its emitter and the client. -/
structure Facade where
  /-- Listeners of the emitter. -/
  table : Table
  /-- Wrappers that have run. -/
  fired : List ℕ
  /-- Wrappers so far. -/
  wrappers : ℕ
  /-- Brackets that are open. -/
  listenerMutationDepth : ℕ
  /-- What the client was told, oldest first. -/
  forwarding : List Bool

/-- A facade without listeners. -/
def Facade.fresh : Facade := ⟨.empty,[],0,0,[]⟩

/-- Somebody listens to raw nodes. -/
def Facade.hasRawNodeListeners (s : Facade) : Bool := s.table.keys.any isRawNodeEventName

/-- What the client was told last. -/
def Facade.lastForwarding (s : Facade) : Bool := s.forwarding.getLast?.getD false

/-- Open a bracket. -/
def Facade.enter (s : Facade) : Facade := { s with listenerMutationDepth := s.listenerMutationDepth+1 }

/-- Close the bracket that was opened before; the outermost one tells the client what has changed. -/
def Facade.leave (before after : Facade) : Facade :=
  let s := { after with listenerMutationDepth := after.listenerMutationDepth-1 }
  if before.listenerMutationDepth = 0 ∧ s.hasRawNodeListeners ≠ before.hasRawNodeListeners then
    { s with forwarding := s.forwarding++[s.hasRawNodeListeners] }
  else s

/-- How code ends. -/
inductive Ending where
  | returned
  | thrown
  deriving DecidableEq

/-- Code that runs. -/
inductive Code where
  /-- A method of the facade. -/
  | facade (method : Method)
  /-- A method of the emitter. -/
  | emitter (method : Method)
  /-- Listeners, one behind the other. -/
  | calls (event : EventName) (listeners : List Listener)
  /-- One listener. -/
  | call (event : EventName) (listener : Listener)
  /-- Removal of all listeners of some events. -/
  | removeEvents (events : List EventName)
  /-- Removal of some more listeners of an event. -/
  | removeEach (event : EventName) (count : ℕ)
  /-- Code of a user. -/
  | user

/-- The method of the emitter that a method of the facade stands for. -/
def delegate (mode : Mode) (method : Method) : Method :=
  match mode,method with
  | .injected,.addListener event listener => .on event listener
  | _,method => method

/-- A method that the emitter calls on itself. -/
def Mode.self (mode : Mode) (method : Method) : Code :=
  match mode with
  | .own => .facade method
  | .injected => .emitter method

/-- Methods that run inside a bracket. -/
def isBracketed (mode : Mode) (method : Method) : Bool :=
  match mode,method with
  | .own,.emit _ => false
  | _,_ => true

/-- What a method adds: the event, the listener, and whether it is in front. -/
def adds : Method → Option (EventName × Listener × Bool)
  | .on event listener => some (event,listener,false)
  | .addListener event listener => some (event,listener,false)
  | .prependListener event listener => some (event,listener,true)
  | _ => none

/-- What a method adds once: the method that adds the wrapper, and the listener. -/
def addsOnce : Method → Option ((Listener → Method) × Listener)
  | .once event listener => some (.on event,listener)
  | .prependOnceListener event listener => some (.prependListener event,listener)
  | _ => none

/-- What a method removes. -/
def removes : Method → Option (EventName × Listener)
  | .removeListener event listener => some (event,listener)
  | .off event listener => some (event,listener)
  | _ => none

/-- Runs of code, from a facade to a facade. A user's code calls the facade any number of
times, with any choice of what it does about what is thrown. -/
inductive Runs (mode : Mode) : Code → Facade → Facade → Ending → Prop where
  /-- A method inside a bracket. -/
  | bracket {method s t ending} (h : isBracketed mode method = true)
      (body : Runs mode (.emitter (delegate mode method)) s.enter t ending) :
      Runs mode (.facade method) s (s.leave t) ending
  /-- A method without one. -/
  | plain {method s t ending} (h : isBracketed mode method = false)
      (body : Runs mode (.emitter (delegate mode method)) s t ending) : Runs mode (.facade method) s t ending
  /-- Add a listener that nobody is told of. -/
  | add {method event listener front s} (h : adds method = some (event,listener,front))
      (hquiet : s.table.get newListener = none) :
      Runs mode (.emitter method) s { s with table := s.table.insert event listener front } .returned
  /-- Add a listener once others are told of it. -/
  | addTold {method event listener front s t} (h : adds method = some (event,listener,front))
      (htold : s.table.get newListener ≠ none) (body : Runs mode (mode.self (.emit newListener)) s t .returned) :
      Runs mode (.emitter method) s { t with table := t.table.insert event listener front } .returned
  /-- One of them throws. -/
  | addFails {method event listener front s t} (h : adds method = some (event,listener,front))
      (htold : s.table.get newListener ≠ none) (body : Runs mode (mode.self (.emit newListener)) s t .thrown) :
      Runs mode (.emitter method) s t .thrown
  /-- Add a wrapper. -/
  | addOnce {method wrap listener s t ending} (h : addsOnce method = some (wrap,listener))
      (body : Runs mode (mode.self (wrap (.onceWrapper s.wrappers listener))) { s with wrappers := s.wrappers+1 } t ending) :
      Runs mode (.emitter method) s t ending
  /-- There is no such listener. -/
  | removeNothing {method event listener s} (h : removes method = some (event,listener))
      (hnone : s.table.erase event listener = none) : Runs mode (.emitter method) s s .returned
  /-- Remove a listener that nobody is told of. -/
  | remove {method event listener table s} (h : removes method = some (event,listener))
      (hsome : s.table.erase event listener = some table) (hquiet : table.get listenerRemoved = none) :
      Runs mode (.emitter method) s { s with table := table } .returned
  /-- Remove a listener and tell others of it. -/
  | removeTold {method event listener table s t ending} (h : removes method = some (event,listener))
      (hsome : s.table.erase event listener = some table) (htold : table.get listenerRemoved ≠ none)
      (body : Runs mode (mode.self (.emit listenerRemoved)) { s with table := table } t ending) :
      Runs mode (.emitter method) s t ending
  /-- Remove all listeners where nobody is told. -/
  | clear {s} (hquiet : s.table.get listenerRemoved = none) :
      Runs mode (.emitter (.removeAllListeners none)) s { s with table := .empty } .returned
  /-- Remove all listeners of an event where nobody is told. -/
  | clearEvent {event s} (hquiet : s.table.get listenerRemoved = none) :
      Runs mode (.emitter (.removeAllListeners (some event))) s { s with table := s.table.delete event } .returned
  /-- Remove all listeners, one event after the other, in any order. -/
  | clearTold {events s t u} (htold : s.table.get listenerRemoved ≠ none)
      (horder : events.Perm (s.table.keys.filter fun event => event ≠ listenerRemoved))
      (body : Runs mode (.removeEvents events) s t .returned)
      (rest : Runs mode (mode.self (.removeAllListeners (some listenerRemoved))) t u .returned) :
      Runs mode (.emitter (.removeAllListeners none)) s { u with table := .empty } .returned
  /-- One event fails. -/
  | clearFails {events s t} (htold : s.table.get listenerRemoved ≠ none)
      (horder : events.Perm (s.table.keys.filter fun event => event ≠ listenerRemoved))
      (body : Runs mode (.removeEvents events) s t .thrown) : Runs mode (.emitter (.removeAllListeners none)) s t .thrown
  /-- The last event fails. -/
  | clearFailsLast {events s t u} (htold : s.table.get listenerRemoved ≠ none)
      (horder : events.Perm (s.table.keys.filter fun event => event ≠ listenerRemoved))
      (body : Runs mode (.removeEvents events) s t .returned)
      (rest : Runs mode (mode.self (.removeAllListeners (some listenerRemoved))) t u .thrown) :
      Runs mode (.emitter (.removeAllListeners none)) s u .thrown
  /-- Remove all listeners of an event, one behind the other. -/
  | clearEventTold {event s t ending} (htold : s.table.get listenerRemoved ≠ none)
      (body : Runs mode (.removeEach event ((s.table.get event).getD []).length) s t ending) :
      Runs mode (.emitter (.removeAllListeners (some event))) s t ending
  /-- No more events. -/
  | eventsEnd {s} : Runs mode (.removeEvents []) s s .returned
  /-- One event after the other. -/
  | eventsNext {event events s t u ending} (first : Runs mode (mode.self (.removeAllListeners (some event))) s t .returned)
      (rest : Runs mode (.removeEvents events) t u ending) : Runs mode (.removeEvents (event::events)) s u ending
  /-- An event fails. -/
  | eventsFail {event events s t} (first : Runs mode (mode.self (.removeAllListeners (some event))) s t .thrown) :
      Runs mode (.removeEvents (event::events)) s t .thrown
  /-- No more listeners. -/
  | eachEnd {event s} : Runs mode (.removeEach event 0) s s .returned
  /-- One listener behind the other; which one it is may have changed meanwhile. -/
  | eachNext {event count listener s t u ending} (first : Runs mode (mode.self (.removeListener event listener)) s t .returned)
      (rest : Runs mode (.removeEach event count) t u ending) : Runs mode (.removeEach event (count+1)) s u ending
  /-- A removal fails. -/
  | eachFail {event count listener s t} (first : Runs mode (mode.self (.removeListener event listener)) s t .thrown) :
      Runs mode (.removeEach event (count+1)) s t .thrown
  /-- There is no listener any more. -/
  | eachGone {event count s} : Runs mode (.removeEach event (count+1)) s s .thrown
  /-- Nobody listens. -/
  | emitNothing {event s} (hnone : s.table.get event = none) (herror : event ≠ errorEvent) :
      Runs mode (.emitter (.emit event)) s s .returned
  /-- Nobody listens to an error. -/
  | emitError {s} (hnone : s.table.get errorEvent = none) : Runs mode (.emitter (.emit errorEvent)) s s .thrown
  /-- Call those who listen now. -/
  | emit {event listeners s t ending} (hsome : s.table.get event = some listeners)
      (body : Runs mode (.calls event listeners) s t ending) : Runs mode (.emitter (.emit event)) s t ending
  /-- No more listeners to call. -/
  | callsEnd {event s} : Runs mode (.calls event []) s s .returned
  /-- One listener behind the other. -/
  | callsNext {event listener listeners s t u ending} (first : Runs mode (.call event listener) s t .returned)
      (rest : Runs mode (.calls event listeners) t u ending) : Runs mode (.calls event (listener::listeners)) s u ending
  /-- A listener throws. -/
  | callsFail {event listener listeners s t} (first : Runs mode (.call event listener) s t .thrown) :
      Runs mode (.calls event (listener::listeners)) s t .thrown
  /-- A function of the user. -/
  | callback {event id s t ending} (body : Runs mode .user s t ending) : Runs mode (.call event (.callback id)) s t ending
  /-- A wrapper that has run. -/
  | firedBefore {event token listener s} (hfired : token ∈ s.fired) :
      Runs mode (.call event (.onceWrapper token listener)) s s .returned
  /-- A wrapper removes itself, and calls what it wraps. -/
  | fires {event token listener s t u ending} (hfired : token ∉ s.fired)
      (removal : Runs mode (mode.self (.removeListener event (.onceWrapper token listener))) s t .returned)
      (body : Runs mode (.call event listener) { t with fired := token::t.fired } u ending) :
      Runs mode (.call event (.onceWrapper token listener)) s u ending
  /-- A wrapper fails to remove itself. -/
  | firesFail {event token listener s t} (hfired : token ∉ s.fired)
      (removal : Runs mode (mode.self (.removeListener event (.onceWrapper token listener))) s t .thrown) :
      Runs mode (.call event (.onceWrapper token listener)) s t .thrown
  /-- Code of a user ends. -/
  | userEnd {s ending} : Runs mode .user s s ending
  /-- Code of a user calls the facade, and goes on. -/
  | userNext {method s t u first ending} (called : Runs mode (.facade method) s t first)
      (rest : Runs mode .user t u ending) : Runs mode .user s u ending

/-- Facades behind outermost calls of methods. -/
inductive Reached (mode : Mode) : Facade → Prop where
  /-- No call yet. -/
  | fresh : Reached mode .fresh
  /-- One more call, which returns or throws. -/
  | call {method s t ending} (before : Reached mode s) (h : Runs mode (.facade method) s t ending) : Reached mode t

end Model

section Forwarding

variable {mode : Mode} {s t : Facade}

/-- Code that changes listeners by calls of the facade only. -/
def isOuter (mode : Mode) : Code → Bool
  | .facade _ => true
  | .user => true
  | .emitter (.emit _) => mode = .own
  | .calls _ _ => mode = .own
  | .call _ _ => mode = .own
  | _ => false

/-- The client was told last what holds. -/
def Facade.IsTold (s : Facade) : Prop := s.lastForwarding = s.hasRawNodeListeners

/-- What code does to brackets and to the client. -/
structure Tells (mode : Mode) (code : Code) (s t : Facade) : Prop where
  /-- Every bracket that it opens is closed. -/
  depth : t.listenerMutationDepth = s.listenerMutationDepth
  /-- Within a bracket the client is told nothing. -/
  inner : 0 < s.listenerMutationDepth → t.forwarding = s.forwarding
  /-- Outside of brackets what the client was told goes on to hold. -/
  outer : isOuter mode code = true → s.listenerMutationDepth = 0 → s.IsTold → t.IsTold

/-- Code that leaves the facade as it is tells nothing. -/
theorem Tells.stay (code : Code) (s : Facade) : Tells mode code s s := ⟨rfl,fun _ => rfl,fun _ _ h => h⟩

/-- One code behind the other tells what both do. -/
theorem Tells.trans {first second code : Code} {u : Facade} (h : Tells mode first s t) (hrest : Tells mode second t u)
    (hfirst : isOuter mode code = true → isOuter mode first = true)
    (hsecond : isOuter mode code = true → isOuter mode second = true) : Tells mode code s u := by
  refine ⟨hrest.depth.trans h.depth,fun hdepth => ?_,fun houter hdepth htold => ?_⟩
  · have hinner := h.inner hdepth
    rw [← h.depth] at hdepth
    exact (hrest.inner hdepth).trans hinner
  · have hmid := h.outer (hfirst houter) hdepth htold
    rw [← h.depth] at hdepth
    exact hrest.outer (hsecond houter) hdepth hmid

/-- Code that is part of another tells as much. -/
theorem Tells.part {inside code : Code} (h : Tells mode inside s t) (houter : isOuter mode code = true → isOuter mode inside = true) :
    Tells mode code s t := ⟨h.depth,h.inner,fun hcode => h.outer (houter hcode)⟩

/-- A method of the emitter that is no emission runs within brackets. -/
theorem Tells.change {code inside : Code} {start last : Facade} (h : Tells mode inside start t) (hcode : isOuter mode code = false)
    (hstart : start.listenerMutationDepth = s.listenerMutationDepth ∧ start.forwarding = s.forwarding)
    (hlast : last.listenerMutationDepth = t.listenerMutationDepth ∧ last.forwarding = t.forwarding) :
    Tells mode code s last := by
  refine ⟨?_,fun hdepth => ?_,fun houter => ?_⟩
  · rw [hlast.1,h.depth,hstart.1]
  · rw [← hstart.1] at hdepth
    rw [hlast.2,h.inner hdepth,hstart.2]
  · rw [hcode] at houter
    cases houter

/-- A bracket tells the client what has changed, where it is the outermost one. -/
theorem Tells.bracket {method method' : Method} (h : Tells mode (.emitter method') s.enter t) :
    Tells mode (.facade method) s (s.leave t) := by
  have hinner : t.forwarding = s.forwarding := h.inner (Nat.succ_pos _)
  have hdepth : t.listenerMutationDepth-1 = s.listenerMutationDepth := by
    rw [h.depth]
    rfl
  unfold Facade.leave
  dsimp only
  refine ⟨?_,fun hdeep => ?_,fun _ hzero htold => ?_⟩
  · split
    · exact hdepth
    · exact hdepth
  · rw [if_neg fun hboth => Nat.ne_of_gt hdeep hboth.1]
    exact hinner
  · split
    · unfold Facade.IsTold Facade.lastForwarding
      rw [List.getLast?_concat]
      rfl
    · rename_i hsame
      have hequal : Facade.hasRawNodeListeners { t with listenerMutationDepth := t.listenerMutationDepth-1 } =
          s.hasRawNodeListeners := by
        by_contra hne
        exact hsame ⟨hzero,hne⟩
      unfold Facade.IsTold Facade.lastForwarding at htold ⊢
      rw [hequal,← htold]
      exact congrArg (fun forwarding => (List.getLast? forwarding).getD false) hinner

theorem isOuter_adds {method : Method} {added : EventName × Listener × Bool} (h : adds method = some added) :
    isOuter mode (.emitter method) = false := by
  cases method <;> first | rfl | cases h

theorem isOuter_addsOnce {method : Method} {added : (Listener → Method) × Listener} (h : addsOnce method = some added) :
    isOuter mode (.emitter method) = false := by
  cases method <;> first | rfl | cases h

theorem isOuter_removes {method : Method} {removed : EventName × Listener} (h : removes method = some removed) :
    isOuter mode (.emitter method) = false := by
  cases method <;> first | rfl | cases h

theorem isOuter_self (method : Method) (h : decide (mode = .own) = true) : isOuter mode (mode.self method) = true := by
  rw [of_decide_eq_true h]
  rfl

/-- All code closes its brackets, and the client knows behind it what holds. -/
theorem Runs.tells {code : Code} {ending : Ending} (h : Runs mode code s t ending) : Tells mode code s t := by
  induction h with
  | bracket hbracket body ih => exact ih.bracket
  | plain hplain body ih =>
    refine ih.part fun _ => ?_
    unfold isBracketed at hplain
    split at hplain
    · rfl
    · cases hplain
  | add h hquiet => exact (Tells.stay .user _).change (isOuter_adds h) ⟨rfl,rfl⟩ ⟨rfl,rfl⟩
  | addTold h htold body ih => exact ih.change (isOuter_adds h) ⟨rfl,rfl⟩ ⟨rfl,rfl⟩
  | addFails h htold body ih => exact ih.change (isOuter_adds h) ⟨rfl,rfl⟩ ⟨rfl,rfl⟩
  | addOnce h body ih => exact ih.change (isOuter_addsOnce h) ⟨rfl,rfl⟩ ⟨rfl,rfl⟩
  | removeNothing h hnone => exact .stay _ _
  | remove h hsome hquiet => exact (Tells.stay .user _).change (isOuter_removes h) ⟨rfl,rfl⟩ ⟨rfl,rfl⟩
  | removeTold h hsome htold body ih => exact ih.change (isOuter_removes h) ⟨rfl,rfl⟩ ⟨rfl,rfl⟩
  | clear hquiet => exact (Tells.stay .user _).change rfl ⟨rfl,rfl⟩ ⟨rfl,rfl⟩
  | clearEvent hquiet => exact (Tells.stay .user _).change rfl ⟨rfl,rfl⟩ ⟨rfl,rfl⟩
  | clearTold htold horder body rest ihBody ihRest =>
    have hboth : Tells mode (.removeEvents []) _ _ := ihBody.trans ihRest (fun h => nomatch h) fun h => nomatch h
    exact hboth.change rfl ⟨rfl,rfl⟩ ⟨rfl,rfl⟩
  | clearFails htold horder body ih => exact ih.change rfl ⟨rfl,rfl⟩ ⟨rfl,rfl⟩
  | clearFailsLast htold horder body rest ihBody ihRest => exact ihBody.trans ihRest (fun h => nomatch h) fun h => nomatch h
  | clearEventTold htold body ih => exact ih.change rfl ⟨rfl,rfl⟩ ⟨rfl,rfl⟩
  | eventsEnd => exact .stay _ _
  | eventsNext first rest ihFirst ihRest => exact ihFirst.trans ihRest (fun h => nomatch h) fun h => nomatch h
  | eventsFail first ih => exact ih.change rfl ⟨rfl,rfl⟩ ⟨rfl,rfl⟩
  | eachEnd => exact .stay _ _
  | eachNext first rest ihFirst ihRest => exact ihFirst.trans ihRest (fun h => nomatch h) fun h => nomatch h
  | eachFail first ih => exact ih.change rfl ⟨rfl,rfl⟩ ⟨rfl,rfl⟩
  | eachGone => exact .stay _ _
  | emitNothing hnone herror => exact .stay _ _
  | emitError hnone => exact .stay _ _
  | emit hsome body ih => exact ih.part fun houter => houter
  | callsEnd => exact .stay _ _
  | callsNext first rest ihFirst ihRest => exact ihFirst.trans ihRest (fun houter => houter) fun houter => houter
  | callsFail first ih => exact ih.part fun houter => houter
  | callback body ih => exact ih.part fun _ => rfl
  | firedBefore hfired => exact .stay _ _
  | fires hfired removal body ihRemoval ihBody =>
    have hbody : Tells mode (.call _ _) _ _ := ihRemoval.trans ⟨ihBody.depth,ihBody.inner,ihBody.outer⟩
      (fun houter => isOuter_self _ houter) fun houter => houter
    exact hbody.part fun houter => houter
  | firesFail hfired removal ih => exact ih.part fun houter => isOuter_self _ houter
  | userEnd => exact .stay _ _
  | userNext called rest ihCalled ihRest => exact ihCalled.trans ihRest (fun _ => rfl) fun _ => rfl

/-- Behind every outermost call no bracket is open, and the client knows what holds. -/
theorem Reached.told (h : Reached mode s) : s.listenerMutationDepth = 0 ∧ s.IsTold := by
  induction h with
  | fresh => exact ⟨rfl,rfl⟩
  | call before h ih =>
    have htells := h.tells
    exact ⟨htells.depth.trans ih.1,htells.outer rfl ih.1 ih.2⟩

/-- In every run at most one disconnect is in flight and calls of close settle behind theirs, and
behind every outermost call of a method the client knows whether somebody listens to raw nodes. -/
theorem facade_sound {events : List CloseEvent} {closing : Closing} (hrun : run closeStep Closing.fresh events = some closing)
    {facade : Facade} (hreached : Reached mode facade) :
    closing.inFlight ≤ 1 ∧
      (∀ call ∈ closing.calls, call.isSettled = true →
        ∃ work, closing.works[call.joined]? = some work ∧ work.isOver = true) ∧
      facade.lastForwarding = facade.hasRawNodeListeners :=
  ⟨(run_closing hrun).inFlight_le,(run_closing hrun).isOver,hreached.told.2⟩

/-- A disconnect that calls close and fails, a connect meanwhile, and a close behind it. -/
def reentrantEvents : List CloseEvent :=
  [.close,.start 0 true,.close,.connect true,.settle 0 true,.finish 0,.resolve 0,.answer 1,.connect true,.close,.start 1 true]

/-- Event of some raw nodes. -/
def rawEvent : EventName := .text (ofString "CB:receipt")

/-- A facade with one listener to raw nodes, which runs once. -/
def listening : Facade := ⟨InsertionMap.empty.set rawEvent [.onceWrapper 0 (.callback 7)],[],1,0,[true]⟩

/-- A disconnect that calls close, and a listener that runs once and throws. -/
theorem facade_sound_reentrant : ∃ closing facade, run closeStep Closing.fresh reentrantEvents = some closing ∧
    closing.inFlight = 1 ∧ Reached .own facade ∧ facade.forwarding = [true,false] ∧ closing.inFlight ≤ 1 ∧
    (∀ call ∈ closing.calls, call.isSettled = true →
      ∃ work, closing.works[call.joined]? = some work ∧ work.isOver = true) ∧
    facade.lastForwarding = facade.hasRawNodeListeners := by
  have hrun : run closeStep Closing.fresh reentrantEvents = some ⟨.closing 1,[.settled true,.disconnecting],
      [⟨0,false⟩,⟨0,true⟩,⟨1,false⟩]⟩ := rfl
  have hadded : Runs .own (.facade (.once rawEvent (.callback 7))) .fresh _ .returned :=
    .bracket rfl (.addOnce rfl (.bracket rfl (.add rfl rfl)))
  have hlistening : Runs .own (.facade (.once rawEvent (.callback 7))) .fresh listening .returned := hadded
  have hfired : Runs .own (.facade (.emit rawEvent)) listening _ .thrown :=
    .plain rfl (.emit rfl (.callsFail (.fires (List.not_mem_nil) (.bracket rfl (@Runs.remove .own
      (.removeListener rawEvent (.onceWrapper 0 (.callback 7))) rawEvent (.onceWrapper 0 (.callback 7)) .empty _ rfl rfl rfl))
      (.callback .userEnd))))
  have hreached := Reached.call (Reached.call .fresh hlistening) hfired
  exact ⟨_,_,hrun,rfl,hreached,rfl,facade_sound hrun hreached⟩

end Forwarding

end Baileyrs.WebSocketClient
