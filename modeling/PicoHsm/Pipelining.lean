/-
Client and gateway on one connection.

A client that does not wait sends request lines whenever it likes and keeps a queue of
those that are not answered; each line it receives goes to the front of the queue.  The
transport cuts the bytes of both directions wherever it likes, the gateway takes a line as
soon as it is complete (`Lines::next_line`) and works on one line at a time.  All of this
interleaves, and the HSM, the log and the transport answer as they like.

* `Wire`, `Wire.Step` — both parties and what is between them, and what each may do;
* `Wire.InStep` — the invariant;
* `wire_in_step` — every answer goes to the request it belongs to, none is lost, and what the
  gateway does is what its loop does on the lines it has taken.
-/
import PicoHsm.Channel
import PicoHsm.Responses

namespace PicoHsm

open Text Effects

/-! ### One line of the loop -/

namespace Gateway

variable (K : Crates) (g : Gateway) (parse : String → Except String Request)
  (toJson : Response → Except String String)

/-- The body of the loop for a line that is not blank; the result says whether it goes on. -/
def answerLine (cn line : String) : Prog connSig Bool :=
  liftGw (g.processLine K parse cn line) >>= fun response =>
    .call (.write (responseLine toJson response)) fun (r : Except String Unit) =>
      match r with
      | .error _ => .ret false
      | .ok _ => .ret true

end Gateway

/-! ### Both parties -/

/-- Where the gateway stands. -/
inductive Server where
  /-- In `next_line`. -/
  | waiting
  /-- At work on a line. -/
  | busy (p : Prog connSig Bool)
  | closed

/-- Go on behind an answer. -/
def Server.settle : Prog connSig Bool → Server
  | .ret true => .waiting
  | .ret false => .closed
  | .call e k => .busy (.call e k)

structure Wire where
  /-- The lines the client has sent. -/
  sent : List String
  up : Channel
  server : Server
  /-- The lines the gateway has taken. -/
  taken : List (List UInt8)
  /-- What the gateway has done. -/
  hist : List (Ev connSig)
  down : Channel
  /-- The requests that are not answered, by their numbers, oldest first. -/
  pending : List ℕ
  /-- The answers, each with the number of the request it was given to. -/
  resolved : List (ℕ × List UInt8)

/-- A request as a client writes it: one line, and not a blank one. -/
def RequestLine (line : String) : Prop := lf ∉ utf8 line ∧ cr ∉ utf8 line ∧ trim line ≠ ""

instance (line : String) : Decidable (RequestLine line) :=
  inferInstanceAs (Decidable (_ ∧ _ ∧ _))

/-- A line the client skips. -/
def blankLine (l : List UInt8) : Bool :=
  match fromUtf8 l with
  | some s => trim s = ""
  | none => false

namespace Wire

/-- Nothing sent yet. -/
def init : Wire := ⟨[], .empty, .waiting, [], [], .empty, [], []⟩

/-- The client sends a request. -/
def request (w : Wire) (line : String) : Wire :=
  { w with
    sent := w.sent ++ [line]
    up := w.up.send (utf8 line ++ [lf])
    pending := w.pending ++ [w.sent.length] }

/-- The client gives a line to the oldest request that is not answered. -/
def receive (w : Wire) (l : List UInt8) : Wire :=
  if blankLine l then w
  else match w.pending with
    | [] => w
    | n :: rest => { w with pending := rest, resolved := w.resolved ++ [(n, l)] }

variable (K : Crates) (g : Gateway) (parse : String → Except String Request)
  (toJson : Response → Except String String) (cn : String)

/-- The gateway takes a line. -/
def onLine (l : List UInt8) : Server :=
  match fromUtf8 l with
  | none => .closed
  | some line => if trim line = "" then .waiting else .settle (g.answerLine K parse toJson cn line)

/-- What an event of the gateway puts on the wire: a failed write any part of its bytes. -/
inductive Puts : Ev connSig → Channel → Channel → Prop where
  | gw {op : GwOp} {r : op.Ret} {ch : Channel} : Puts ⟨.gw op, r⟩ ch ch
  | written {bytes : List UInt8} {ch : Channel} : Puts ⟨.write bytes, .ok ()⟩ ch (ch.send bytes)
  | failed {bytes : List UInt8} {e : String} {n : ℕ} {ch : Channel} :
      Puts ⟨.write bytes, .error e⟩ ch (ch.send (bytes.take n))

inductive Step : Wire → Wire → Prop where
  | request {w : Wire} {line : String} : RequestLine line → Step w (w.request line)
  | deliverUp {w : Wire} {n : ℕ} : Step w { w with up := w.up.deliver n }
  | take {w : Wire} {l : List UInt8} {up : Channel} : w.server = .waiting →
      w.up.take = some (l, up) →
      Step w { w with
        up := up
        taken := w.taken ++ [stripCr l]
        server := onLine K g parse toJson cn (stripCr l) }
  | work {w : Wire} {e : ConnOp} {k : ConnOp.Ret e → Prog connSig Bool} {r : ConnOp.Ret e}
      {down : Channel} : w.server = .busy (.call e k) → Puts ⟨e, r⟩ w.down down →
      Step w { w with server := .settle (k r), hist := w.hist ++ [⟨e, r⟩], down := down }
  /-- The stream has ended or failed. -/
  | hangUp {w : Wire} : w.server = .waiting → Step w { w with server := .closed }
  | deliverDown {w : Wire} {n : ℕ} : Step w { w with down := w.down.deliver n }
  | receive {w : Wire} {l : List UInt8} {down : Channel} : w.down.take = some (l, down) →
      Step w { w.receive l with down := down }

/-- What may have become of a new connection. -/
inductive Reach : Wire → Prop where
  | init : Reach .init
  | step {w w' : Wire} : Reach w → Step K g parse toJson cn w w' → Reach w'

end Wire

/-! ### The loop of the gateway -/

section Loop

open Prog

variable {K : Crates} {g : Gateway} {parse : String → Except String Request}
  {toJson : Response → Except String String} {cn : String}

/-- What the loop does with the result for a line. -/
def goOn (K : Crates) (g : Gateway) (parse : String → Except String Request)
    (toJson : Response → Except String String) (cn : String) (rest : List (List UInt8))
    (ok : Bool) : Prog connSig (Except String Unit) :=
  if ok then g.handleLines K parse toJson cn none rest else .ret (.ok ())

theorem handleLines_line {l : List UInt8} {line : String} (hl : fromUtf8 l = some line)
    (hb : trim line ≠ "") (rest : List (List UInt8)) :
    g.handleLines K parse toJson cn none (l :: rest) =
      g.answerLine K parse toJson cn line >>= goOn K g parse toJson cn rest := by
  rw [Gateway.handleLines, hl]
  dsimp only
  rw [if_neg hb, Gateway.answerLine, bind_bind]
  refine congrArg _ (funext fun response => ?_)
  refine congrArg (Prog.call _) (funext fun r => ?_)
  rcases r with e | ⟨⟩ <;> rfl

/-- A line is not answered without a step. -/
theorem exists_call_answerLine (line : String) :
    ∃ e k, g.answerLine K parse toJson cn line = .call e k := by
  rw [Gateway.answerLine]
  rcases g.processLine K parse cn line with response | ⟨e, k⟩
  · exact ⟨_, _, rfl⟩
  · exact ⟨_, _, rfl⟩

/-- How far the loop over the lines taken has got. -/
inductive Loop (K : Crates) (g : Gateway) (parse : String → Except String Request)
    (toJson : Response → Except String String) (cn : String) (taken : List (List UInt8))
    (hist : List (Ev connSig)) : Server → Prop where
  | waiting : (∀ more, Steps (g.handleLines K parse toJson cn none (taken ++ more)) hist
      (g.handleLines K parse toJson cn none more)) → Loop K g parse toJson cn taken hist .waiting
  | busy {p : Prog connSig Bool} :
      (∀ more, Steps (g.handleLines K parse toJson cn none (taken ++ more)) hist
        (p >>= goOn K g parse toJson cn more)) → Loop K g parse toJson cn taken hist (.busy p)
  | closed {q : Prog connSig (Except String Unit)} :
      Steps (g.handleLines K parse toJson cn none taken) hist q →
      Loop K g parse toJson cn taken hist .closed

theorem Loop.settle {taken : List (List UInt8)} {hist : List (Ev connSig)}
    {p : Prog connSig Bool} (h : ∀ more, Steps
      (g.handleLines K parse toJson cn none (taken ++ more)) hist
      (p >>= goOn K g parse toJson cn more)) :
    Loop K g parse toJson cn taken hist (.settle p) := by
  rcases p with (_ | _) | ⟨e, k⟩
  · have := h []
    rw [List.append_nil] at this
    exact .closed this
  · exact .waiting h
  · exact .busy h

/-- **The loop takes lines as they arrive** and does with them what it does with all of them
at once. -/
theorem loop_of_reach {w : Wire} (h : Wire.Reach K g parse toJson cn w) :
    Loop K g parse toJson cn w.taken w.hist w.server := by
  induction h with
  | init => exact .waiting fun more => .refl _
  | @step w w' _ hs ih =>
    cases hs with
    | request _ => exact ih
    | deliverUp => exact ih
    | deliverDown => exact ih
    | @receive l down _ =>
      have hw : (w.receive l).taken = w.taken ∧ (w.receive l).hist = w.hist ∧
          (w.receive l).server = w.server := by
        rw [Wire.receive]
        split
        · exact ⟨rfl, rfl, rfl⟩
        · split
          · exact ⟨rfl, rfl, rfl⟩
          · exact ⟨rfl, rfl, rfl⟩
      dsimp only
      rw [hw.1, hw.2.1, hw.2.2]
      exact ih
    | hangUp hw =>
      rw [hw] at ih
      cases ih with
      | waiting ih =>
        have := ih []
        rw [List.append_nil] at this
        exact .closed this
    | @take l up hw _ =>
      rw [hw] at ih
      cases ih with
      | waiting ih =>
        -- the line taken is the next one of the loop
        have ih : ∀ more, Steps (g.handleLines K parse toJson cn none
            ((w.taken ++ [stripCr l]) ++ more)) w.hist
            (g.handleLines K parse toJson cn none (stripCr l :: more)) := by
          intro more
          rw [List.append_assoc]
          exact ih (stripCr l :: more)
        dsimp only
        rw [Wire.onLine]
        rcases hl : fromUtf8 (stripCr l) with _ | line
        · have := ih []
          rw [List.append_nil] at this
          exact .closed this
        dsimp only
        by_cases hb : trim line = ""
        · rw [if_pos hb]
          refine .waiting fun more => ?_
          have := ih more
          rw [Gateway.handleLines, hl] at this
          dsimp only at this
          rwa [if_pos hb] at this
        · rw [if_neg hb]
          refine .settle fun more => ?_
          have := ih more
          rwa [handleLines_line hl hb] at this
    | @work e k r down hw _ =>
      rw [hw] at ih
      cases ih with
      | busy ih =>
        refine .settle fun more => ?_
        exact Steps.snoc (ih more) r

end Loop

/-! ### The invariant -/

/-- A request that was answered: the line, what the gateway did for it, its response, and
what became of the write. -/
structure Exchange where
  line : String
  events : List (Ev gwSig)
  response : Response
  written : Except String Unit

section InStep

open Prog

variable (K : Crates) (g : Gateway) (parse : String → Except String Request)
  (toJson : Response → Except String String) (cn : String)

namespace Exchange

/-- The response as the client reads it. -/
def text (x : Exchange) : List UInt8 := utf8 (responseText toJson x.response)

/-- What the gateway does on the connection. -/
def trace (x : Exchange) : List (Ev connSig) :=
  x.events.map liftEv ++ [⟨.write (responseLine toJson x.response), x.written⟩]

/-- The response is the one `process_line` gives to the line. -/
def Ran (x : Exchange) : Prop :=
  Steps (g.processLine K parse cn x.line) x.events (.ret x.response)

end Exchange

/-- The answers, each with its number. -/
def numbered (done : List Exchange) : List (ℕ × List UInt8) :=
  done.mapIdx fun n x => (n, x.text toJson)

/-- Where the gateway stands: the line it is at, and what it has done for it. -/
inductive Wire.Phase : Server → List String → List (Ev connSig) → List UInt8 → Prop where
  | waiting : Wire.Phase .waiting [] [] []
  | busy {line : String} {evs : List (Ev connSig)} {e : ConnOp}
      {k : ConnOp.Ret e → Prog connSig Bool} :
      Steps (g.answerLine K parse toJson cn line) evs (.call e k) →
      Wire.Phase (.busy (.call e k)) [line] evs []
  | closed {cur : List String} {evs : List (Ev connSig)} {tail : List UInt8} :
      Wire.Phase .closed cur evs tail

/-- Of the lines sent, `done` are answered, `cur` is being worked on and `rest` is on its way
to the gateway; of the answers, `given` are with the client and `back` are on their way. -/
structure Wire.InStep (w : Wire) (given back : List Exchange) (cur rest : List String)
    (evs : List (Ev connSig)) (tail : List UInt8) : Prop where
  sent : w.sent = (given ++ back).map Exchange.line ++ (cur ++ rest)
  requests : ∀ line ∈ w.sent, RequestLine line
  up : w.up.Holds (rest.map utf8) []
  taken : w.taken = ((given ++ back).map Exchange.line ++ cur).map utf8
  phase : Wire.Phase K g parse toJson cn w.server cur evs tail
  ran : ∀ x ∈ given ++ back, x.Ran K g parse cn
  hist : w.hist = (given ++ back).flatMap (Exchange.trace toJson) ++ evs
  down : w.down.Holds (back.map (Exchange.text toJson)) tail
  resolved : w.resolved = numbered toJson given
  pending : w.pending = List.range' given.length (w.sent.length - given.length)

variable {K g parse toJson cn}

/-- Gateway code on a connection, also unfinished. -/
theorem liftGw_cases {α : Type} {P : Prog gwSig α} {t : List (Ev connSig)} {q : Prog connSig α}
    (h : Steps (liftGw P) t q) : ∃ u P', t = u.map liftEv ∧ Steps P u P' ∧ q = liftGw P' := by
  induction P generalizing t with
  | ret a =>
    cases h
    exact ⟨[], .ret a, rfl, .refl _, rfl⟩
  | call e k ih =>
    cases h with
    | refl => exact ⟨[], .call e k, rfl, .refl _, rfl⟩
    | @call _ _ r t _ h =>
      obtain ⟨u, P', rfl, hu, rfl⟩ := ih r h
      exact ⟨⟨e, r⟩ :: u, P', rfl, .call hu, rfl⟩

/-- The write behind the work on a line. -/
def writeBack (toJson : Response → Except String String) (response : Response) :
    Prog connSig Bool :=
  .call (.write (responseLine toJson response)) fun (r : Except String Unit) =>
    match r with
    | .error _ => .ret false
    | .ok _ => .ret true

/-- The work on a line that goes on: either `process_line` is at work, or its response is
about to be written. -/
theorem answerLine_cases {line : String} {evs : List (Ev connSig)} {e : ConnOp}
    {k : ConnOp.Ret e → Prog connSig Bool}
    (h : Steps (g.answerLine K parse toJson cn line) evs (.call e k)) :
    ∃ u P, evs = u.map liftEv ∧ Steps (g.processLine K parse cn line) u P ∧
      Prog.call e k = liftGw P >>= writeBack toJson := by
  rcases h.bind_cases with ⟨p', hp, hq⟩ | ⟨t₁, t₂, response, rfl, h₁, h₂⟩
  · obtain ⟨u, P, rfl, hu, rfl⟩ := liftGw_cases hp
    exact ⟨u, P, rfl, hu, hq⟩
  · obtain ⟨u, rfl, hu⟩ := steps_liftGw h₁
    cases h₂ with
    | refl => exact ⟨u, .ret response, List.append_nil _, hu, rfl⟩
    | @call _ _ r _ _ h₂ =>
      rcases r with e | ⟨⟩ <;> cases h₂

theorem numbered_concat (done : List Exchange) (x : Exchange) :
    numbered toJson (done ++ [x]) = numbered toJson done ++ [(done.length, x.text toJson)] := by
  rw [numbered, List.mapIdx_concat]
  rfl

theorem inStep_init : Wire.init.InStep K g parse toJson cn [] [] [] [] [] [] where
  sent := rfl
  requests := by simp [Wire.init]
  up := Channel.holds_empty
  taken := rfl
  phase := .waiting
  ran := by simp
  hist := rfl
  down := Channel.holds_empty
  resolved := rfl
  pending := rfl

variable {w : Wire} {given back : List Exchange} {cur rest : List String}
  {evs : List (Ev connSig)} {tail : List UInt8}

/-- The answers given are to requests that were sent. -/
theorem Wire.InStep.given_le (h : w.InStep K g parse toJson cn given back cur rest evs tail) :
    given.length ≤ w.sent.length := by
  rw [h.sent]
  simp only [List.length_append, List.length_map]
  omega

theorem Wire.InStep.request (h : w.InStep K g parse toJson cn given back cur rest evs tail)
    {line : String} (hl : RequestLine line) :
    (w.request line).InStep K g parse toJson cn given back cur (rest ++ [line]) evs tail where
  sent := by
    rw [Wire.request, h.sent]
    simp
  requests := by
    intro line' hm
    rcases List.mem_append.mp hm with hm | hm
    · exact h.requests line' hm
    · rw [List.mem_singleton.mp hm]
      exact hl
  up := by
    rw [List.map_append]
    exact h.up.send hl.1
  taken := h.taken
  phase := h.phase
  ran := h.ran
  hist := h.hist
  down := h.down
  resolved := h.resolved
  pending := by
    have hle := h.given_le
    rw [Wire.request, h.pending]
    dsimp only
    rw [List.length_append, List.length_singleton, Nat.sub_add_comm hle, List.range'_concat,
      Nat.one_mul, Nat.add_sub_cancel' hle]

theorem stripCr_of_request {line : String} (h : RequestLine line) :
    stripCr (utf8 line) = utf8 line := by
  rw [stripCr, if_neg]
  intro hl
  exact h.2.1 (List.mem_of_getLast? hl)

/-- The gateway takes the next line that was sent. -/
theorem Wire.InStep.take (h : w.InStep K g parse toJson cn given back cur rest evs tail)
    (hw : w.server = .waiting) {l : List UInt8} {up : Channel} (ht : w.up.take = some (l, up)) :
    ∃ line rest', { w with
      up := up
      taken := w.taken ++ [stripCr l]
      server := Wire.onLine K g parse toJson cn (stripCr l) : Wire }.InStep K g parse toJson cn
        given back [line] rest' [] [] := by
  obtain ⟨ls, hls, hup⟩ := h.up.take ht
  rcases rest with _ | ⟨line, rest⟩
  · cases hls
  cases hls
  have hphase := h.phase
  rw [hw] at hphase
  cases hphase
  have hreq : RequestLine line := h.requests line (by rw [h.sent]; simp)
  refine ⟨line, rest, ⟨h.sent, h.requests, hup, ?_, ?_, h.ran, h.hist, h.down, h.resolved,
    h.pending⟩⟩
  · dsimp only
    rw [h.taken, stripCr_of_request hreq]
    simp
  · dsimp only
    rw [stripCr_of_request hreq, Wire.onLine, fromUtf8_utf8]
    dsimp only
    rw [if_neg hreq.2.2]
    obtain ⟨e, k, ha⟩ : ∃ e k, g.answerLine K parse toJson cn line = .call e k :=
      exists_call_answerLine line
    rw [ha]
    refine .busy ?_
    rw [ha]
    exact .refl _

/-- While `process_line` is at work the line is not answered. -/
theorem settle_working (P : Prog gwSig Response) :
    ∃ e k, liftGw P >>= writeBack toJson = .call e k ∧
      Server.settle (liftGw P >>= writeBack toJson) = .busy (.call e k) := by
  rcases P with response | ⟨e, k⟩
  · exact ⟨_, _, rfl, rfl⟩
  · exact ⟨_, _, rfl, rfl⟩

/-- The answer that is now complete. -/
theorem Wire.InStep.answered (h : w.InStep K g parse toJson cn given back cur rest evs tail)
    {line : String} {u : List (Ev gwSig)} {response : Response} {r : Except String Unit}
    (hcur : cur = [line]) (htail : tail = []) (hev : evs = u.map liftEv)
    (hu : Steps (g.processLine K parse cn line) u (.ret response))
    (hJ : lf ∉ utf8 (responseText toJson response)) {server : Server}
    (hs : Wire.Phase K g parse toJson cn server [] [] []) :
    { w with
      server := server
      hist := w.hist ++ [⟨.write (responseLine toJson response), r⟩]
      down := w.down.send (responseLine toJson response) : Wire }.InStep K g parse toJson cn given
        (back ++ [⟨line, u, response, r⟩]) [] rest [] [] where
  sent := by
    dsimp only
    rw [h.sent, hcur]
    simp
  requests := h.requests
  up := h.up
  taken := by
    dsimp only
    rw [h.taken, hcur]
    simp
  phase := hs
  ran := by
    intro x hx
    rw [← List.append_assoc] at hx
    rcases List.mem_append.mp hx with hx | hx
    · exact h.ran x hx
    · rw [List.mem_singleton.mp hx]
      exact hu
  hist := by
    dsimp only
    rw [h.hist, hev, ← List.append_assoc given, List.flatMap_append, List.append_nil]
    simp [Exchange.trace]
  down := by
    have hdown := h.down
    rw [htail] at hdown
    rw [List.map_append]
    exact hdown.send hJ
  resolved := h.resolved
  pending := h.pending

/-- The gateway takes a step. -/
theorem Wire.InStep.work (hJ : ∀ response, lf ∉ utf8 (responseText toJson response))
    (h : w.InStep K g parse toJson cn given back cur rest evs tail) {e : ConnOp}
    {k : ConnOp.Ret e → Prog connSig Bool} (hw : w.server = .busy (.call e k)) {r : ConnOp.Ret e}
    {down : Channel} (hp : Wire.Puts ⟨e, r⟩ w.down down) :
    ∃ back' cur' evs' tail', { w with
      server := .settle (k r)
      hist := w.hist ++ [⟨e, r⟩]
      down := down : Wire }.InStep K g parse toJson cn given back' cur' rest evs' tail' := by
  have hphase := h.phase
  rw [hw] at hphase
  generalize hcur : cur = cur' at hphase
  generalize htail : tail = tail' at hphase
  cases hphase with
  | @busy line _ _ _ hsteps =>
  obtain ⟨u, P, hu, hP, hcall⟩ := answerLine_cases hsteps
  rcases P with response | ⟨op, k'⟩
  · -- the response is written
    cases hcall
    cases hp with
    | written => exact ⟨_, _, _, _, h.answered hcur htail hu hP (hJ response) .waiting⟩
    | @failed _ err n _ =>
      by_cases hn : n ≤ (utf8 (responseText toJson response)).length
      · -- only a part of it, without the line feed, went out
        have htake : (responseLine toJson response).take n =
            (utf8 (responseText toJson response)).take n := by
          rw [responseLine, List.take_append_of_le_length hn]
        refine ⟨back, cur, evs ++ [⟨.write (responseLine toJson response), .error err⟩],
          (utf8 (responseText toJson response)).take n, h.sent, h.requests, h.up, h.taken, .closed,
          h.ran, ?_, ?_, h.resolved, h.pending⟩
        · dsimp only
          rw [h.hist, List.append_assoc]
        · have hdown := h.down
          rw [htail] at hdown
          dsimp only
          rw [htake]
          exact hdown.sendTail fun hm => hJ response (List.mem_of_mem_take hm)
      · have htake : (responseLine toJson response).take n = responseLine toJson response := by
          refine List.take_of_length_le ?_
          rw [responseLine, List.length_append, List.length_singleton]
          omega
        rw [htake]
        exact ⟨_, _, _, _, h.answered hcur htail hu hP (hJ response) .closed⟩
  · -- `process_line` goes on
    cases hcall
    cases hp with
    | gw =>
      obtain ⟨e', k'', hnext, hsettle⟩ : ∃ e k, liftGw (k' r) >>= writeBack toJson = .call e k ∧
          Server.settle (liftGw (k' r) >>= writeBack toJson) = .busy (.call e k) :=
        settle_working (k' r)
      refine ⟨back, cur, evs ++ [⟨.gw op, r⟩], [], h.sent, h.requests, h.up, h.taken, ?_, h.ran, ?_,
        ?_, h.resolved, h.pending⟩
      · have hsnoc : Steps (g.answerLine K parse toJson cn line) (evs ++ [⟨.gw op, r⟩])
            (liftGw (k' r) >>= writeBack toJson) := hsteps.snoc r
        rw [hcur]
        change Wire.Phase K g parse toJson cn (.settle (liftGw (k' r) >>= writeBack toJson)) _ _ _
        rw [hsettle]
        rw [hnext] at hsnoc
        exact .busy hsnoc
      · dsimp only
        rw [h.hist, List.append_assoc]
      · have hdown := h.down
        rw [htail] at hdown
        exact hdown

theorem responseText_not_blank (hT : ∀ response s, toJson response = .ok s → trim s ≠ "")
    (response : Response) : trim (responseText toJson response) ≠ "" := by
  rw [responseText]
  rcases h : toJson response with e | s
  · dsimp only
    decide
  · exact hT response s h

/-- A response is not skipped. -/
theorem blankLine_text (hT : ∀ response, trim (responseText toJson response) ≠ "")
    (x : Exchange) : blankLine (x.text toJson) = false := by
  rw [blankLine, Exchange.text, fromUtf8_utf8]
  simpa using hT x.response

/-- The client takes the next answer. -/
theorem Wire.InStep.receive (hT : ∀ response, trim (responseText toJson response) ≠ "")
    (h : w.InStep K g parse toJson cn given back cur rest evs tail) {l : List UInt8}
    {down : Channel} (ht : w.down.take = some (l, down)) :
    ∃ x back', { w.receive l with down := down : Wire }.InStep K g parse toJson cn (given ++ [x])
      back' cur rest evs tail := by
  obtain ⟨ls, hls, hdown⟩ := h.down.take ht
  rcases back with _ | ⟨x, back⟩
  · cases hls
  cases hls
  have hassoc : (given ++ [x]) ++ back = given ++ x :: back := by simp
  have hlen : given.length + 1 ≤ w.sent.length := by
    rw [h.sent]
    simp only [List.length_append, List.length_map, List.length_cons]
    omega
  have hpending : w.pending =
      given.length :: List.range' (given.length + 1) (w.sent.length - (given.length + 1)) := by
    rw [h.pending, show w.sent.length - given.length =
      (w.sent.length - (given.length + 1)) + 1 by omega, List.range'_succ]
  rw [Wire.receive, blankLine_text hT x, if_neg Bool.false_ne_true, hpending]
  refine ⟨x, back, ?_, h.requests, h.up, ?_, h.phase, ?_, ?_, hdown, ?_, ?_⟩
  · rw [hassoc]
    exact h.sent
  · rw [hassoc]
    exact h.taken
  · rw [hassoc]
    exact h.ran
  · rw [hassoc]
    exact h.hist
  · dsimp only
    rw [h.resolved, numbered_concat]
  · rw [List.length_append, List.length_singleton]

variable (K g parse toJson cn) in
/-- The invariant, for some way of dividing up what was sent. -/
def Wire.Tidy (w : Wire) : Prop :=
  ∃ given back cur rest evs tail, w.InStep K g parse toJson cn given back cur rest evs tail

/-- **Every step keeps both sides in step.** -/
theorem Wire.Tidy.step (hJ : ∀ response, lf ∉ utf8 (responseText toJson response))
    (hT : ∀ response, trim (responseText toJson response) ≠ "") {w' : Wire}
    (h : w.Tidy K g parse toJson cn) (hs : Wire.Step K g parse toJson cn w w') :
    w'.Tidy K g parse toJson cn := by
  obtain ⟨given, back, cur, rest, evs, tail, h⟩ := h
  cases hs with
  | request hl => exact ⟨_, _, _, _, _, _, h.request hl⟩
  | @deliverUp n =>
    exact ⟨_, _, _, _, _, _, h.sent, h.requests, h.up.deliver n, h.taken, h.phase, h.ran, h.hist,
      h.down, h.resolved, h.pending⟩
  | @deliverDown n =>
    exact ⟨_, _, _, _, _, _, h.sent, h.requests, h.up, h.taken, h.phase, h.ran, h.hist,
      h.down.deliver n, h.resolved, h.pending⟩
  | take hw ht =>
    obtain ⟨line, rest', h⟩ := h.take hw ht
    exact ⟨_, _, _, _, _, _, h⟩
  | work hw hp =>
    obtain ⟨back', cur', evs', tail', h⟩ := h.work hJ hw hp
    exact ⟨_, _, _, _, _, _, h⟩
  | hangUp _ =>
    exact ⟨_, _, _, _, _, _, h.sent, h.requests, h.up, h.taken, .closed, h.ran, h.hist, h.down,
      h.resolved, h.pending⟩
  | receive ht =>
    obtain ⟨x, back', h⟩ := h.receive hT ht
    exact ⟨_, _, _, _, _, _, h⟩

theorem tidy_of_reach (hJ : ∀ response, lf ∉ utf8 (responseText toJson response))
    (hT : ∀ response, trim (responseText toJson response) ≠ "")
    (h : Wire.Reach K g parse toJson cn w) : w.Tidy K g parse toJson cn := by
  induction h with
  | init => exact ⟨_, _, _, _, _, _, inStep_init⟩
  | step _ hs ih => exact ih.step hJ hT hs

/-- Nothing is on its way, and the gateway waits for the next line. -/
structure Wire.Quiet (w : Wire) : Prop where
  server : w.server = .waiting
  up : w.up.flight = [] ∧ w.up.take = none
  down : w.down.flight = [] ∧ w.down.take = none

/-- When nothing is on its way, every request is answered. -/
theorem Wire.InStep.quiet (h : w.InStep K g parse toJson cn given back cur rest evs tail)
    (hq : w.Quiet) : w.pending = [] := by
  have hrest : rest = [] := List.map_eq_nil_iff.mp (h.up.drained hq.up.1 hq.up.2)
  have hback : back = [] := List.map_eq_nil_iff.mp (h.down.drained hq.down.1 hq.down.2)
  have hphase := h.phase
  rw [hq.server] at hphase
  cases hphase
  rw [h.pending, h.sent, hrest, hback]
  simp

/-- **Every answer goes to its request.**  However sending, delivery in either direction, the
gateway's work and receiving interleave, and however the transport cuts the bytes: the
requests answered are the first ones that were sent, each worked on once and in order; the
`n`-th answer the client takes is the response `process_line` gave to the `n`-th request, and
belongs to that one; all others are still pending, and when nothing is on its way there are
none.  What the gateway does is what its loop does on the lines it has taken, which are the
first ones sent. -/
theorem wire_in_step (hJ : ∀ response s, toJson response = .ok s → lf ∉ utf8 s)
    (hT : ∀ response s, toJson response = .ok s → trim s ≠ "")
    (h : Wire.Reach K g parse toJson cn w) :
    (∃ done : List Exchange, (∀ x ∈ done, x.Ran K g parse cn) ∧
      done.map Exchange.line <+: w.sent ∧ done.flatMap (Exchange.trace toJson) <+: w.hist ∧
      w.resolved <+: numbered toJson done) ∧
    w.pending = List.range' w.resolved.length (w.sent.length - w.resolved.length) ∧
    (w.Quiet → w.pending = []) ∧
    w.taken <+: w.sent.map utf8 ∧
    ∃ q, Steps (g.handleLines K parse toJson cn none w.taken) w.hist q := by
  obtain ⟨given, back, cur, rest, evs, tail, hin⟩ := tidy_of_reach
    (Gateway.lf_notMem_responseText hJ) (responseText_not_blank hT) h
  refine ⟨⟨given ++ back, hin.ran, ?_, ?_, ?_⟩, ?_, hin.quiet, ?_, ?_⟩
  · rw [hin.sent]
    exact List.prefix_append _ _
  · rw [hin.hist]
    exact List.prefix_append _ _
  · rw [hin.resolved, numbered, numbered, List.mapIdx_append]
    exact List.prefix_append _ _
  · rw [hin.pending, hin.resolved, numbered, List.length_mapIdx]
  · rw [hin.taken, hin.sent, ← List.append_assoc]
    exact (List.prefix_append _ _).map _
  · have hloop := loop_of_reach h
    generalize w.server = server at hloop
    cases hloop with
    | waiting hs =>
      have := hs []
      rw [List.append_nil] at this
      exact ⟨_, this⟩
    | busy hs =>
      have := hs []
      rw [List.append_nil] at this
      exact ⟨_, this⟩
    | closed hs => exact ⟨_, hs⟩

end InStep

/-! ### Two requests at once -/

theorem responseJson_not_blank (response : Response) (s : String)
    (h : Ref.responseJson response = .ok s) : trim s ≠ "" := by
  rw [Ref.responseJson, Except.ok.injEq] at h
  subst h
  intro hblank
  rw [trim_eq_empty_iff, String.toList_ofList] at hblank
  have hbrace : '\x7b' ∈ Ref.writeResponse response := by
    cases response <;> exact List.mem_append_left _ (by decide)
  exact absurd (hblank _ hbrace) (by decide)

/-- The client sends two lines before it reads, and they arrive in pieces. -/
theorem reach_twoAtOnce : ∃ w, Wire.Reach Ref.crates Ref.gateway Ref.parseRequest Ref.responseJson
    "app-a" w ∧ w.sent = ["hello", "x"] ∧ w.resolved.length = 1 := by
  have h₁ : Wire.Reach Ref.crates Ref.gateway Ref.parseRequest Ref.responseJson "app-a" _ :=
    Wire.Reach.init.step (.request (show RequestLine "hello" by decide +kernel))
  have h₂ := h₁.step (.request (show RequestLine "x" by decide +kernel))
  have h₄ := (h₂.step (.deliverUp (n := 3))).step (.deliverUp (n := 4))
  have h₅ := h₄.step (.take rfl rfl)
  have h₆ := h₅.step (.work rfl .written)
  have h₈ := (h₆.step (.deliverDown (n := 9))).step (.deliverDown (n := 1000))
  have h₉ := h₈.step (.receive rfl)
  exact ⟨_, h₉, rfl, by decide +kernel⟩

theorem wire_in_step_twoAtOnce : ∃ w : Wire, w.sent = ["hello", "x"] ∧ w.pending = [1] ∧
    ∃ done : List Exchange,
      (∀ x ∈ done, x.Ran Ref.crates Ref.gateway Ref.parseRequest "app-a") ∧
      done.map Exchange.line <+: w.sent ∧ w.resolved.length = 1 ∧
      w.resolved <+: numbered Ref.responseJson done := by
  obtain ⟨w, hw, hsent, hlen⟩ := reach_twoAtOnce
  obtain ⟨⟨done, hran, hline, -, hres⟩, hpending, -⟩ :=
    wire_in_step Ref.responseJson_noBreak responseJson_not_blank hw
  refine ⟨w, hsent, ?_, done, hran, hline, hlen, hres⟩
  rw [hpending, hlen, hsent]
  rfl

end PicoHsm
