import Aliot.CString
import Aliot.JsonNumber

set_option autoImplicit false

namespace Aliot.LinkIt

def WEB_DATA_SIZE : Nat := 500
def UIP_TCP_MSS : Nat := 546

structure Configuration where
  accessKey : CString
  secretKey : CString
  getHmac : CString → CString → CString

inductive Api where
  | registerThing
  | transmitThingHeartbeat
  | transmitThingData
  | transmitThingAlert
  | transmitThingDataPacket

def Api.path : Api → Bytes
  | .registerThing => ascii "/api/v3/things/register.json"
  | .transmitThingHeartbeat => ascii "/api/v3/things/heartbeat.json"
  | .transmitThingData | .transmitThingDataPacket => ascii "/api/v3/things/event.json"
  | .transmitThingAlert => ascii "/api/v3/alerts.json"

def host : Bytes := ascii "http://api.datonis.io"

def requestText (configuration : Configuration) (path : Bytes) (json : CString) : Bytes :=
  ascii "POST " ++ path ++ ascii " HTTP/1.1\r\nHost: " ++ host ++ ascii "\r\nAccept: */*\r\nX-Access-Key: " ++
    configuration.accessKey.bytes ++ ascii "\r\nX-Dtn-Signature: " ++
    (configuration.getHmac configuration.secretKey json).bytes ++
    ascii "\r\nContent-Type: application/json\r\nContent-Length: " ++ Json.natText json.strlen ++
    ascii "\r\nCache-Control: no-cache\r\n\r\n" ++ json.bytes

inductive TcpState where
  | closed
  | synSent
  | established
  | lastAck
deriving DecidableEq

-- len counts the bytes in transit.
structure Connection where
  tcpstateflags : TcpState
  len : Nat
  mss : Nat
  initialmss : Nat

structure Port where
  localMyWebData : Bytes
  readyFlag : Bool
  appInit : Bool
  uipConn : Connection

structure Flags where
  acked : Bool
  aborted : Bool
  closed : Bool
  newdata : Bool
  poll : Bool

-- What happens to the connection of MyHttpPort; expired is the answer of the application's 5 s timer.
inductive UipEvent where
  | periodic (expired : Bool)
  | synAck (mss : Nat)
  | segment (acks newdata : Bool) (wnd : Nat)
  | fin (acks newdata : Bool)
  | finAcked
  | reset
  | timedOut

-- Without a free connection uip_connect returns NULL, and nothing changes.
def appInitConnection (free : Bool) (p : Port) : Port :=
  if free then { p with uipConn := ⟨.synSent, 1, UIP_TCP_MSS, UIP_TCP_MSS⟩ } else p

-- None stands for a sprintf past the end of local_my_web_data.
def encodeAndSendData (configuration : Configuration) (path : Bytes) (json : CString) (free : Bool) (p : Port) :
    Option (Int × Port) :=
  let p := if p.readyFlag then p else { appInitConnection free p with readyFlag := true }
  if p.localMyWebData.length = 0 then
    let text := requestText configuration path json
    if text.length < WEB_DATA_SIZE then some (1, { p with localMyWebData := text }) else none
  else some (1, p)

-- The bytes given to uip_send.
def sendData (p : Port) : Bytes × Port :=
  if p.localMyWebData.length ≠ 0 then (p.localMyWebData, { p with localMyWebData := [] }) else ([], p)

def appHandleConnection (flags : Flags) (expired : Bool) (p : Port) : Bytes × Port :=
  let p := if flags.aborted || flags.closed then { p with readyFlag := false } else p
  if flags.poll && (!p.appInit || expired) then
    let (data, p) := sendData p
    (data, { p with appInit := true })
  else ([], p)

-- The bytes that go into a TCP segment; what is in transit already is not sent in more bytes than before.
def appsend (acked : Bool) (data : Bytes) (p : Port) : List Bytes × Port :=
  if data.length = 0 then ([], p)
  else
    let len := if acked then 0 else p.uipConn.len
    let slen := if len = 0 then min data.length p.uipConn.mss else len
    (if slen = 0 then [] else [data.take slen], { p with uipConn := { p.uipConn with len := slen } })

def Port.withConn (p : Port) (uipConn : Connection) : Port := { p with uipConn := uipConn }

def uipProcess (event : UipEvent) (p : Port) : List Bytes × Port :=
  let conn := p.uipConn
  match event with
  | .periodic expired =>
      if conn.tcpstateflags = .established ∧ conn.len = 0 then
        let (data, p) := appHandleConnection ⟨false, false, false, false, true⟩ expired p
        appsend false data p
      else ([], p)
  | .synAck mss =>
      if conn.tcpstateflags = .synSent then
        let (data, p) := appHandleConnection ⟨false, false, false, true, false⟩ false
          (p.withConn ⟨.established, 0, min mss UIP_TCP_MSS, min mss UIP_TCP_MSS⟩)
        appsend false data p
      else ([], p)
  | .segment acks newdata wnd =>
      if conn.tcpstateflags = .established then
        let acked := acks && conn.len ≠ 0
        let p := p.withConn { conn with
          len := if acked then 0 else conn.len
          mss := if wnd > conn.initialmss ∨ wnd = 0 then conn.initialmss else wnd }
        if acked || newdata then
          let (data, p) := appHandleConnection ⟨acked, false, false, newdata, false⟩ false p
          appsend acked data p
        else ([], p)
      else ([], p)
  | .fin acks newdata =>
      if conn.tcpstateflags = .established then
        let acked := acks && conn.len ≠ 0
        if ¬ acked ∧ conn.len ≠ 0 then ([], p)
        else
          let (_, p) := appHandleConnection ⟨acked, false, true, newdata, false⟩ false p
          ([], p.withConn { conn with tcpstateflags := .lastAck, len := 1 })
      else ([], p)
  | .finAcked =>
      if conn.tcpstateflags = .lastAck then
        let (_, p) := appHandleConnection ⟨false, false, true, false, false⟩ false p
        ([], p.withConn { conn with tcpstateflags := .closed })
      else ([], p)
  | .reset =>
      if conn.tcpstateflags = .closed then ([], p)
      else
        let (_, p) := appHandleConnection ⟨false, true, false, false, false⟩ false p
        ([], p.withConn { conn with tcpstateflags := .closed })
  | .timedOut =>
      if conn.tcpstateflags = .closed ∨ conn.len = 0 then ([], p)
      else
        let (_, p) := appHandleConnection ⟨false, false, false, false, false⟩ false p
        ([], p.withConn { conn with tcpstateflags := .closed })

inductive Step where
  | call (api : Api) (json : CString) (free : Bool)
  | process (event : UipEvent)

-- `normal` lists the texts whose call has returned 1, `passed` what has gone into TCP segments.
structure System where
  port : Port
  normal : List Bytes
  passed : List Bytes

def step (configuration : Configuration) : Step → System → Option System
  | .call api json free, s =>
      (encodeAndSendData configuration api.path json free s.port).map (fun (rc, port) =>
        { s with
          port := port
          normal := if rc = 1 then s.normal ++ [requestText configuration api.path json] else s.normal })
  | .process event, s =>
      some { s with port := (uipProcess event s.port).2, passed := s.passed ++ (uipProcess event s.port).1 }

def run (configuration : Configuration) : List Step → System → Option System
  | [], s => some s
  | event :: events, s => (step configuration event s).bind (run configuration events)

-- After iot_tcp_app_init, whether or not it got a connection.
def started (uipConn : Connection) : System := ⟨⟨[], true, false, uipConn⟩, [], []⟩

def waiting (p : Port) : List Bytes := if p.localMyWebData = [] then [] else [p.localMyWebData]

-- Each text with the normal result has been passed on once, whole and in order, except for one that still waits.
def InOrder (s : System) : Prop := s.normal = s.passed ++ waiting s.port

-- What further events of uIP pass on.
def passes : List UipEvent → Port → List Bytes
  | [], _ => []
  | event :: events, p => (uipProcess event p).1 ++ passes events (uipProcess event p).2

-- The text that waits is not lost yet: some events pass it on, once and whole.
def Passable (p : Port) : Prop := ∃ events, passes events p = waiting p

structure Kept (s : System) : Prop where
  order : InOrder s
  passable : Passable s.port

def PollDue (p : Port) (expired : Bool) : Prop :=
  p.uipConn.tcpstateflags = .established ∧ p.uipConn.len = 0 ∧ (p.appInit = false ∨ expired = true)

def StepSafe (configuration : Configuration) (s : System) : Step → Prop
  | .call api json _ => s.port.localMyWebData = [] ∧ (requestText configuration api.path json).length < WEB_DATA_SIZE
  | .process (.periodic expired) => PollDue s.port expired → s.port.localMyWebData.length ≤ s.port.uipConn.mss
  | .process _ => True

def RunSafe (configuration : Configuration) (s : System) : List Step → Prop
  | [] => True
  | event :: events => StepSafe configuration s event ∧ ∀ t, step configuration event s = some t → RunSafe configuration t events

-- The connection is open, or opening, and its MSS can be as long as the text.
def CanPass (conn : Connection) (length : Nat) : Prop :=
  conn.tcpstateflags = .synSent ∧ length ≤ UIP_TCP_MSS ∨
    conn.tcpstateflags = .established ∧ (length ≤ conn.initialmss ∨ conn.len = 0 ∧ length ≤ conn.mss)

-- What does not cut off a text that waits; without bytes in transit uIP does not time out.
def Spares (conn : Connection) (length : Nat) : UipEvent → Prop
  | .periodic _ | .finAcked => True
  | .synAck mss => conn.tcpstateflags = .synSent → length ≤ mss
  | .segment _ _ _ => conn.tcpstateflags = .established → length ≤ conn.initialmss
  | .fin acks _ => conn.tcpstateflags = .established → acks = false ∧ conn.len ≠ 0
  | .reset => False
  | .timedOut => conn.len = 0

def StepSpares (configuration : Configuration) (s : System) : Step → Prop
  | .call api json free =>
      CanPass s.port.uipConn (requestText configuration api.path json).length ∨ s.port.readyFlag = false ∧ free = true
  | .process event => s.port.localMyWebData ≠ [] → Spares s.port.uipConn s.port.localMyWebData.length event

def RunKeeps (configuration : Configuration) (s : System) : List Step → Prop
  | [] => True
  | event :: events => (StepSafe configuration s event ∧ StepSpares configuration s event) ∧
      ∀ t, step configuration event s = some t → RunKeeps configuration t events

theorem request_text_not_empty (configuration : Configuration) (path : Bytes) (json : CString) :
    requestText configuration path json ≠ [] := by
  intro empty
  have all := congrArg List.length empty
  simp [requestText, ascii] at all

theorem init_connection_data (free : Bool) (p : Port) : (appInitConnection free p).localMyWebData = p.localMyWebData ∧
    (appInitConnection free p).uipConn = if free = true then ⟨.synSent, 1, UIP_TCP_MSS, UIP_TCP_MSS⟩ else p.uipConn := by
  cases free with
  | false => exact ⟨rfl, rfl⟩
  | true => exact ⟨rfl, rfl⟩

theorem call_outcome (configuration : Configuration) (path : Bytes) (json : CString) (free : Bool) (p : Port) :
    ∃ q : Port, q.localMyWebData = p.localMyWebData ∧
      (q.uipConn = if p.readyFlag = false ∧ free = true then ⟨.synSent, 1, UIP_TCP_MSS, UIP_TCP_MSS⟩ else p.uipConn) ∧
      encodeAndSendData configuration path json free p =
        if p.localMyWebData.length = 0 then
          if (requestText configuration path json).length < WEB_DATA_SIZE then
            some (1, { q with localMyWebData := requestText configuration path json })
          else none
        else some (1, q) := by
  cases ready : p.readyFlag with
  | true =>
      refine ⟨p, rfl, by simp, ?_⟩
      simp only [encodeAndSendData, ready, if_true]
  | false =>
      obtain ⟨same, conn⟩ := init_connection_data free p
      refine ⟨{ appInitConnection free p with readyFlag := true }, same, by simpa using conn, ?_⟩
      simp only [encodeAndSendData, ready, Bool.false_eq_true, if_false, same]

-- A text that finds another one waiting is dropped with the result of one that is taken.
theorem call_in_order_iff (configuration : Configuration) (api : Api) (json : CString) (free : Bool) (s : System)
    (order : InOrder s) :
    (∃ t, step configuration (.call api json free) s = some t ∧ InOrder t) ↔ StepSafe configuration s (.call api json free) := by
  obtain ⟨q, same, _, outcome⟩ := call_outcome configuration api.path json free s.port
  have some_text := request_text_not_empty configuration api.path json
  simp only [step, StepSafe, outcome]
  generalize requestText configuration api.path json = text at some_text ⊢
  by_cases empty : s.port.localMyWebData = []
  · have none_left : s.normal = s.passed := by simpa [InOrder, waiting, empty] using order
    by_cases short : text.length < WEB_DATA_SIZE
    · simp [empty, short, InOrder, waiting, some_text, none_left]
    · simp [empty, short]
  · have pending : ¬ s.port.localMyWebData.length = 0 := fun none => empty (List.length_eq_zero_iff.mp none)
    have held : s.normal = s.passed ++ [s.port.localMyWebData] := by simpa [InOrder, waiting, empty] using order
    simp [empty, InOrder, waiting, same, held]

-- The application sends nothing unless it is polled when its timer has expired.
theorem app_idle (flags : Flags) (expired : Bool) (p : Port) (undue : (flags.poll && (!p.appInit || expired)) = false) :
    ∃ q, appHandleConnection flags expired p = ([], q) ∧ q.localMyWebData = p.localMyWebData ∧ q.uipConn = p.uipConn := by
  cases ended : flags.aborted || flags.closed with
  | false =>
      refine ⟨p, ?_, rfl, rfl⟩
      simp only [appHandleConnection, ended, Bool.false_eq_true, if_false, undue]
  | true =>
      refine ⟨{ p with readyFlag := false }, ?_, rfl, rfl⟩
      simp only [appHandleConnection, ended, if_true, undue, Bool.false_eq_true, if_false]

-- Nothing is passed on, the text stays, and the connection becomes this one.
structure Idle (event : UipEvent) (p : Port) (conn : Connection) : Prop where
  unsent : (uipProcess event p).1 = []
  data : (uipProcess event p).2.localMyWebData = p.localMyWebData
  conn : (uipProcess event p).2.uipConn = conn

theorem unmoved (event : UipEvent) (p : Port) (same : uipProcess event p = ([], p)) : Idle event p p.uipConn :=
  ⟨by rw [same], by rw [same], by rw [same]⟩

theorem periodic_idle (expired : Bool) (p : Port) (undue : ¬ PollDue p expired) : Idle (.periodic expired) p p.uipConn := by
  by_cases polled : p.uipConn.tcpstateflags = .established ∧ p.uipConn.len = 0
  · have early : (true && (!p.appInit || expired)) = false := by
      cases first : p.appInit with
      | false => exact absurd ⟨polled.1, polled.2, .inl first⟩ undue
      | true =>
          cases expired with
          | false => rfl
          | true => exact absurd ⟨polled.1, polled.2, .inr rfl⟩ undue
    obtain ⟨q, outcome, data, conn⟩ := app_idle ⟨false, false, false, false, true⟩ expired p early
    have result : uipProcess (.periodic expired) p = ([], q) := by
      simp only [uipProcess, if_pos polled, outcome]
      rfl
    exact ⟨by rw [result], by rw [result]; exact data, by rw [result]; exact conn⟩
  · exact unmoved _ p (by simp only [uipProcess, if_neg polled])

theorem syn_ack_idle (mss : Nat) (p : Port) : Idle (.synAck mss) p
    (if p.uipConn.tcpstateflags = .synSent then ⟨.established, 0, min mss UIP_TCP_MSS, min mss UIP_TCP_MSS⟩ else p.uipConn) := by
  by_cases opening : p.uipConn.tcpstateflags = .synSent
  · rw [if_pos opening]
    obtain ⟨q, outcome, data, conn⟩ := app_idle ⟨false, false, false, true, false⟩ false
      (p.withConn ⟨.established, 0, min mss UIP_TCP_MSS, min mss UIP_TCP_MSS⟩) rfl
    have result : uipProcess (.synAck mss) p = ([], q) := by
      simp only [uipProcess, if_pos opening, outcome]
      rfl
    exact ⟨by rw [result], by rw [result]; exact data, by rw [result]; exact conn⟩
  · rw [if_neg opening]
    exact unmoved _ p (by simp only [uipProcess, if_neg opening])

def segmentConn (acks : Bool) (wnd : Nat) (conn : Connection) : Connection :=
  { conn with
    len := if acks && conn.len ≠ 0 then 0 else conn.len
    mss := if wnd > conn.initialmss ∨ wnd = 0 then conn.initialmss else wnd }

theorem segment_idle (acks newdata : Bool) (wnd : Nat) (p : Port) : Idle (.segment acks newdata wnd) p
    (if p.uipConn.tcpstateflags = .established then segmentConn acks wnd p.uipConn else p.uipConn) := by
  by_cases established : p.uipConn.tcpstateflags = .established
  · rw [if_pos established]
    obtain ⟨q, outcome, data, conn⟩ := app_idle ⟨acks && p.uipConn.len ≠ 0, false, false, newdata, false⟩ false
      (p.withConn (segmentConn acks wnd p.uipConn)) rfl
    by_cases told : (acks && decide (p.uipConn.len ≠ 0) || newdata) = true
    · have result : uipProcess (.segment acks newdata wnd) p = ([], q) := by
        simp only [uipProcess, if_pos established, if_pos told]
        exact congrArg (fun result => appsend _ result.1 result.2) outcome
      exact ⟨by rw [result], by rw [result]; exact data, by rw [result]; exact conn⟩
    · have result : uipProcess (.segment acks newdata wnd) p = ([], p.withConn (segmentConn acks wnd p.uipConn)) := by
        simp only [uipProcess, if_pos established, if_neg told]
        rfl
      exact ⟨by rw [result], by rw [result]; rfl, by rw [result]; rfl⟩
  · rw [if_neg established]
    exact unmoved _ p (by simp only [uipProcess, if_neg established])

-- The application is told that the connection has ended, and sends nothing.
theorem ended_idle (event : UipEvent) (flags : Flags) (p : Port) (conn : Connection) (unpolled : flags.poll = false)
    (result : uipProcess event p = ([], (appHandleConnection flags false p).2.withConn conn)) : Idle event p conn := by
  obtain ⟨q, outcome, data, _⟩ := app_idle flags false p (by rw [unpolled]; rfl)
  rw [outcome] at result
  exact ⟨by rw [result], by rw [result]; exact data, by rw [result]; rfl⟩

theorem fin_idle (acks newdata : Bool) (p : Port) : Idle (.fin acks newdata) p
    (if p.uipConn.tcpstateflags = .established ∧ ¬ (acks = false ∧ p.uipConn.len ≠ 0) then
      { p.uipConn with tcpstateflags := .lastAck, len := 1 } else p.uipConn) := by
  have refused : (¬ (acks && decide (p.uipConn.len ≠ 0)) = true ∧ p.uipConn.len ≠ 0) ↔ acks = false ∧ p.uipConn.len ≠ 0 := by
    cases acks <;> simp
  by_cases established : p.uipConn.tcpstateflags = .established
  · by_cases busy : acks = false ∧ p.uipConn.len ≠ 0
    · rw [if_neg (fun both => both.2 busy)]
      exact unmoved _ p (by simp only [uipProcess, if_pos established, if_pos (refused.mpr busy)])
    · rw [if_pos ⟨established, busy⟩]
      refine ended_idle _ ⟨acks && p.uipConn.len ≠ 0, false, true, newdata, false⟩ p _ rfl ?_
      simp only [uipProcess, if_pos established, if_neg (fun both => busy (refused.mp both))]
  · rw [if_neg (fun both => established both.1)]
    exact unmoved _ p (by simp only [uipProcess, if_neg established])

theorem fin_acked_idle (p : Port) : Idle .finAcked p
    (if p.uipConn.tcpstateflags = .lastAck then { p.uipConn with tcpstateflags := .closed } else p.uipConn) := by
  by_cases last : p.uipConn.tcpstateflags = .lastAck
  · rw [if_pos last]
    exact ended_idle _ ⟨false, false, true, false, false⟩ p _ rfl (by simp only [uipProcess, if_pos last])
  · rw [if_neg last]
    exact unmoved _ p (by simp only [uipProcess, if_neg last])

theorem reset_idle (p : Port) : Idle .reset p { p.uipConn with tcpstateflags := .closed } := by
  by_cases closed : p.uipConn.tcpstateflags = .closed
  · have same : { p.uipConn with tcpstateflags := .closed } = p.uipConn := by rw [← closed]
    rw [same]
    exact unmoved _ p (by simp only [uipProcess, if_pos closed])
  · exact ended_idle _ ⟨false, true, false, false, false⟩ p _ rfl (by simp only [uipProcess, if_neg closed])

theorem timed_out_idle (p : Port) : Idle .timedOut p
    (if p.uipConn.len = 0 then p.uipConn else { p.uipConn with tcpstateflags := .closed }) := by
  by_cases still : p.uipConn.tcpstateflags = .closed ∨ p.uipConn.len = 0
  · have same : (if p.uipConn.len = 0 then p.uipConn else { p.uipConn with tcpstateflags := .closed }) = p.uipConn := by
      split
      · rfl
      · rename_i busy
        rw [← still.resolve_right busy]
    rw [same]
    exact unmoved _ p (by simp only [uipProcess, if_pos still])
  · rw [if_neg (fun idle => still (.inr idle))]
    exact ended_idle _ ⟨false, false, false, false, false⟩ p _ rfl (by simp only [uipProcess, if_neg still])

def DuePoll (event : UipEvent) (p : Port) : Prop := ∃ expired, event = .periodic expired ∧ PollDue p expired

theorem undue_idle (event : UipEvent) (p : Port) (undue : ¬ DuePoll event p) : ∃ conn, Idle event p conn := by
  cases event with
  | periodic expired => exact ⟨_, periodic_idle expired p (fun due => undue ⟨expired, rfl, due⟩)⟩
  | synAck mss => exact ⟨_, syn_ack_idle mss p⟩
  | segment acks newdata wnd => exact ⟨_, segment_idle acks newdata wnd p⟩
  | fin acks newdata => exact ⟨_, fin_idle acks newdata p⟩
  | finAcked => exact ⟨_, fin_acked_idle p⟩
  | reset => exact ⟨_, reset_idle p⟩
  | timedOut => exact ⟨_, timed_out_idle p⟩

-- A poll that is due passes on as much of the text as the MSS allows, and clears all of it.
theorem due_poll (expired : Bool) (p : Port) (due : PollDue p expired) :
    (uipProcess (.periodic expired) p).2.localMyWebData = [] ∧
      (uipProcess (.periodic expired) p).1 =
        if min p.localMyWebData.length p.uipConn.mss = 0 then []
        else [p.localMyWebData.take (min p.localMyWebData.length p.uipConn.mss)] := by
  have asked : (true && (!p.appInit || expired)) = true := by
    rcases due.2.2 with first | elapsed
    · simp [first]
    · simp [elapsed]
  have free : p.uipConn.tcpstateflags = .established ∧ p.uipConn.len = 0 := ⟨due.1, due.2.1⟩
  simp only [uipProcess, if_pos free, appHandleConnection, Bool.false_or, Bool.false_eq_true, if_false, asked, if_true, sendData]
  by_cases empty : p.localMyWebData = []
  · simp [empty, appsend]
  · have pending : ¬ p.localMyWebData.length = 0 := fun none => empty (List.length_eq_zero_iff.mp none)
    simp [appsend, pending, due.2.1]

theorem segment_whole_iff (text : Bytes) (mss : Nat) :
    (if text = [] then [] else [text]) = (if min text.length mss = 0 then [] else [text.take (min text.length mss)]) ↔
      text.length ≤ mss := by
  by_cases empty : text = []
  · simp [empty]
  have pending : text.length ≠ 0 := fun none => empty (List.length_eq_zero_iff.mp none)
  rw [if_neg empty]
  constructor
  · intro same
    split at same
    · cases same
    · have lengths := congrArg List.length (List.singleton_inj.mp same)
      rw [List.length_take] at lengths
      omega
  · intro fits
    rw [Nat.min_eq_left fits, if_neg pending, List.take_length]

theorem process_in_order_iff (configuration : Configuration) (event : UipEvent) (s : System) (order : InOrder s) :
    (∃ t, step configuration (.process event) s = some t ∧ InOrder t) ↔ StepSafe configuration s (.process event) := by
  have stepped : (∃ t, step configuration (.process event) s = some t ∧ InOrder t) ↔
      s.normal = s.passed ++ (uipProcess event s.port).1 ++ waiting (uipProcess event s.port).2 := by
    simp [step, InOrder]
  rw [stepped]
  by_cases due : DuePoll event s.port
  · obtain ⟨expired, rfl, due⟩ := due
    obtain ⟨cleared, sent⟩ := due_poll expired s.port due
    have safe : StepSafe configuration s (.process (.periodic expired)) ↔ s.port.localMyWebData.length ≤ s.port.uipConn.mss :=
      ⟨fun bound => bound due, fun bound _ => bound⟩
    rw [safe, sent, order]
    simp only [waiting, cleared, if_true, List.append_nil, List.append_cancel_left_eq]
    exact segment_whole_iff s.port.localMyWebData s.port.uipConn.mss
  · obtain ⟨conn, idle⟩ := undue_idle event s.port due
    have safe : StepSafe configuration s (.process event) := by
      cases event with
      | periodic expired => exact fun now => absurd ⟨expired, rfl, now⟩ due
      | _ => trivial
    simp only [idle.unsent, waiting, idle.data, List.append_nil, safe, iff_true]
    exact order

-- Nothing comes after the text.
theorem passes_nothing (events : List UipEvent) (p : Port) (empty : p.localMyWebData = []) : passes events p = [] := by
  induction events generalizing p with
  | nil => rfl
  | cons event events ih =>
      rw [passes]
      by_cases due : DuePoll event p
      · obtain ⟨expired, rfl, due⟩ := due
        obtain ⟨cleared, sent⟩ := due_poll expired p due
        rw [ih _ cleared, sent, empty]
        simp
      · obtain ⟨conn, idle⟩ := undue_idle event p due
        rw [ih _ (idle.data.trans empty), idle.unsent]
        rfl

theorem due_passes_iff (expired : Bool) (events : List UipEvent) (p : Port) (due : PollDue p expired) :
    passes (.periodic expired :: events) p = waiting p ↔ p.localMyWebData.length ≤ p.uipConn.mss := by
  obtain ⟨cleared, sent⟩ := due_poll expired p due
  rw [passes, passes_nothing events _ cleared, sent, List.append_nil, waiting, eq_comm]
  exact segment_whole_iff p.localMyWebData p.uipConn.mss

section Live

variable (event : UipEvent) (p : Port) (length : Nat) (undue : ¬ DuePoll event p)

theorem ended_cannot_pass (conn : Connection) (state : TcpState) (ended : state = .lastAck ∨ state = .closed) :
    ¬ CanPass { conn with tcpstateflags := state } length := by
  rcases ended with rfl | rfl
  · simp [CanPass]
  · simp [CanPass]

include undue in
theorem can_pass_before (can : CanPass (uipProcess event p).2.uipConn length) : CanPass p.uipConn length := by
  cases event with
  | periodic expired => rwa [(periodic_idle expired p (fun due => undue ⟨expired, rfl, due⟩)).conn] at can
  | synAck mss =>
      rw [(syn_ack_idle mss p).conn] at can
      split at can
      · rename_i opening
        rcases can with ⟨closed, _⟩ | ⟨_, short | ⟨_, short⟩⟩
        · cases closed
        · exact .inl ⟨opening, short.trans (Nat.min_le_right _ _)⟩
        · exact .inl ⟨opening, short.trans (Nat.min_le_right _ _)⟩
      · exact can
  | segment acks newdata wnd =>
      rw [(segment_idle acks newdata wnd p).conn] at can
      split at can
      · rename_i established
        rcases can with ⟨opening, _⟩ | ⟨_, short | ⟨_, short⟩⟩
        · cases established.symm.trans opening
        · exact .inr ⟨established, .inl short⟩
        · refine .inr ⟨established, .inl (Nat.le_trans short ?_)⟩
          simp only [segmentConn]
          split <;> omega
      · exact can
  | fin acks newdata =>
      rw [(fin_idle acks newdata p).conn] at can
      split at can
      · exact absurd can (ended_cannot_pass length { p.uipConn with len := 1 } _ (.inl rfl))
      · exact can
  | finAcked =>
      rw [(fin_acked_idle p).conn] at can
      split at can
      · exact absurd can (ended_cannot_pass length _ _ (.inr rfl))
      · exact can
  | reset =>
      rw [(reset_idle p).conn] at can
      exact absurd can (ended_cannot_pass length _ _ (.inr rfl))
  | timedOut =>
      rw [(timed_out_idle p).conn] at can
      split at can
      · exact can
      · exact absurd can (ended_cannot_pass length _ _ (.inr rfl))

variable (can : CanPass p.uipConn length)

include can in
theorem can_pass_open : p.uipConn.tcpstateflags = .synSent ∨ p.uipConn.tcpstateflags = .established :=
  can.elim (fun opening => .inl opening.1) (fun established => .inr established.1)

include undue can in
theorem can_pass_after_iff : CanPass (uipProcess event p).2.uipConn length ↔ Spares p.uipConn length event := by
  cases event with
  | periodic expired =>
      rw [(periodic_idle expired p (fun due => undue ⟨expired, rfl, due⟩)).conn]
      simp [Spares, can]
  | synAck mss =>
      rw [(syn_ack_idle mss p).conn]
      rcases can with ⟨opening, short⟩ | ⟨established, short⟩
      · have both : length ≤ min mss UIP_TCP_MSS ↔ length ≤ mss := by omega
        simp [CanPass, Spares, opening, both]
      · simp [CanPass, Spares, established, short]
  | segment acks newdata wnd =>
      rw [(segment_idle acks newdata wnd p).conn]
      rcases can with ⟨opening, short⟩ | ⟨established, _⟩
      · simp [CanPass, Spares, opening, short]
      · have within : (segmentConn acks wnd p.uipConn).mss ≤ p.uipConn.initialmss := by
          simp only [segmentConn]
          split <;> omega
        rw [if_pos established]
        constructor
        · rintro (⟨opening, _⟩ | ⟨_, long | ⟨_, now⟩⟩) _
          · cases established.symm.trans opening
          · exact long
          · exact Nat.le_trans now within
        · exact fun spares => .inr ⟨established, .inl (spares established)⟩
  | fin acks newdata =>
      rw [(fin_idle acks newdata p).conn]
      rcases can_pass_open p length can with opening | established
      · simp [Spares, opening, can]
      · by_cases busy : acks = false ∧ p.uipConn.len ≠ 0
        · rw [if_neg (fun both => both.2 busy)]
          exact iff_of_true can (fun _ => busy)
        · rw [if_pos ⟨established, busy⟩]
          exact iff_of_false (by simp [CanPass]) (fun spares => busy (spares established))
  | finAcked =>
      rw [(fin_acked_idle p).conn, if_neg]
      · exact iff_of_true can trivial
      · rcases can_pass_open p length can with opening | established
        · simp [opening]
        · simp [established]
  | reset =>
      rw [(reset_idle p).conn]
      exact iff_of_false (ended_cannot_pass length _ _ (.inr rfl)) id
  | timedOut =>
      rw [(timed_out_idle p).conn]
      by_cases still : p.uipConn.len = 0
      · rw [if_pos still]
        exact iff_of_true can still
      · rw [if_neg still]
        exact iff_of_false (ended_cannot_pass length _ _ (.inr rfl)) still

end Live

theorem poll_passes (p q : Port) (data : q.localMyWebData = p.localMyWebData) (established : q.uipConn.tcpstateflags = .established)
    (idle : q.uipConn.len = 0) (short : p.localMyWebData.length ≤ q.uipConn.mss) : passes [.periodic true] q = waiting p := by
  rw [(due_passes_iff true [] q ⟨established, idle, .inr rfl⟩).mpr (by rwa [data]), waiting, waiting, data]

theorem can_pass_passable (p : Port) (can : CanPass p.uipConn p.localMyWebData.length) : Passable p := by
  rcases can with ⟨opening, short⟩ | ⟨established, short | ⟨idle, short⟩⟩
  · have answered := syn_ack_idle UIP_TCP_MSS p
    rw [if_pos opening] at answered
    refine ⟨[.synAck UIP_TCP_MSS, .periodic true], ?_⟩
    rw [passes, answered.unsent, List.nil_append]
    apply poll_passes p _ answered.data
    · rw [answered.conn]
    · rw [answered.conn]
    · rw [answered.conn]
      exact short
  · have acked := segment_idle true false 0 p
    rw [if_pos established] at acked
    refine ⟨[.segment true false 0, .periodic true], ?_⟩
    rw [passes, acked.unsent, List.nil_append]
    apply poll_passes p _ acked.data
    · rw [acked.conn]
      exact established
    · rw [acked.conn]
      simp [segmentConn]
    · rw [acked.conn]
      simpa [segmentConn] using short
  · exact ⟨[.periodic true], poll_passes p p rfl established idle short⟩

theorem passable_iff (p : Port) : Passable p ↔ (p.localMyWebData ≠ [] → CanPass p.uipConn p.localMyWebData.length) := by
  constructor
  · rintro ⟨events, passed⟩ pending
    induction events generalizing p with
    | nil =>
        rw [passes, waiting, if_neg pending] at passed
        cases passed
    | cons event events ih =>
        by_cases due : DuePoll event p
        · obtain ⟨expired, rfl, due⟩ := due
          exact .inr ⟨due.1, .inr ⟨due.2.1, (due_passes_iff expired events p due).mp passed⟩⟩
        · obtain ⟨conn, idle⟩ := undue_idle event p due
          rw [passes, idle.unsent, List.nil_append] at passed
          have later := ih _ (by rw [passed, waiting, waiting, idle.data]) (by rwa [idle.data])
          rw [idle.data] at later
          exact can_pass_before event p _ due later
  · intro can
    by_cases empty : p.localMyWebData = []
    · exact ⟨[], by rw [passes, waiting, if_pos empty]⟩
    · exact can_pass_passable p (can empty)

theorem call_passable_iff (configuration : Configuration) (api : Api) (json : CString) (free : Bool) (s t : System)
    (safe : StepSafe configuration s (.call api json free)) (stepped : step configuration (.call api json free) s = some t) :
    Passable t.port ↔ StepSpares configuration s (.call api json free) := by
  obtain ⟨q, _, conn, outcome⟩ := call_outcome configuration api.path json free s.port
  rw [if_pos (List.length_eq_zero_iff.mpr safe.1), if_pos safe.2] at outcome
  rw [step, outcome] at stepped
  have short : (requestText configuration api.path json).length ≤ UIP_TCP_MSS := Nat.le_of_lt (safe.2.trans (by decide))
  rw [← Option.some.inj stepped, passable_iff, StepSpares]
  simp only [ne_eq, request_text_not_empty, not_false_iff, true_imp_iff, conn]
  by_cases connects : s.port.readyFlag = false ∧ free = true
  · rw [if_pos connects]
    exact iff_of_true (.inl ⟨rfl, short⟩) (.inr connects)
  · rw [if_neg connects]
    exact ⟨.inl, fun can => can.resolve_right connects⟩

theorem process_passable_iff (configuration : Configuration) (event : UipEvent) (s t : System) (passable : Passable s.port)
    (stepped : step configuration (.process event) s = some t) :
    Passable t.port ↔ StepSpares configuration s (.process event) := by
  rw [← Option.some.inj stepped, StepSpares, passable_iff]
  by_cases due : DuePoll event s.port
  · obtain ⟨expired, rfl, due⟩ := due
    exact iff_of_true (fun pending => absurd (due_poll expired s.port due).1 pending) (fun _ => trivial)
  · obtain ⟨conn, idle⟩ := undue_idle event s.port due
    rw [idle.data]
    exact forall_congr' (fun pending => can_pass_after_iff event s.port _ due ((passable_iff s.port).mp passable pending))

theorem step_kept_iff (configuration : Configuration) (event : Step) (s : System) (kept : Kept s) :
    (∃ t, step configuration event s = some t ∧ Kept t) ↔
      StepSafe configuration s event ∧ StepSpares configuration s event := by
  have ordered : (∃ t, step configuration event s = some t ∧ InOrder t) ↔ StepSafe configuration s event := by
    cases event with
    | call api json free => exact call_in_order_iff configuration api json free s kept.order
    | process event => exact process_in_order_iff configuration event s kept.order
  have live : ∀ t, StepSafe configuration s event → step configuration event s = some t →
      (Passable t.port ↔ StepSpares configuration s event) := by
    intro t safe stepped
    cases event with
    | call api json free => exact call_passable_iff configuration api json free s t safe stepped
    | process event => exact process_passable_iff configuration event s t kept.passable stepped
  constructor
  · rintro ⟨t, stepped, keptNext⟩
    have safe := ordered.mp ⟨t, stepped, keptNext.order⟩
    exact ⟨safe, (live t safe stepped).mp keptNext.passable⟩
  · rintro ⟨safe, spares⟩
    obtain ⟨t, stepped, order⟩ := ordered.mpr safe
    exact ⟨t, stepped, order, (live t safe stepped).mpr spares⟩

theorem run_kept_iff (configuration : Configuration) (events : List Step) (s : System) (kept : Kept s) :
    (∀ n, ∃ t, run configuration (events.take n) s = some t ∧ Kept t) ↔ RunKeeps configuration s events := by
  induction events generalizing s with
  | nil => simp [run, RunKeeps, kept]
  | cons event events ih =>
      rw [RunKeeps, ← step_kept_iff configuration event s kept]
      constructor
      · intro all
        obtain ⟨t, first, keptFirst⟩ := all 1
        have stepped : step configuration event s = some t := by
          simpa [run] using first
        refine ⟨⟨t, stepped, keptFirst⟩, fun u same => ?_⟩
        obtain rfl := Option.some.inj (stepped.symm.trans same)
        apply (ih t keptFirst).mp
        intro n
        obtain ⟨u, later, keptLater⟩ := all (n + 1)
        refine ⟨u, ?_, keptLater⟩
        simpa [run, stepped] using later
      · rintro ⟨⟨t, stepped, keptFirst⟩, rest⟩ n
        cases n with
        | zero => exact ⟨s, rfl, kept⟩
        | succ n =>
            obtain ⟨u, later, keptLater⟩ := (ih t keptFirst).mpr (rest t stepped) n
            refine ⟨u, ?_, keptLater⟩
            simpa [run, stepped] using later

-- A text waits no longer than to the next poll that is due.
theorem no_silent_drop_iff (configuration : Configuration) (uipConn : Connection) (events : List Step) :
    ((∀ n, ∃ t, run configuration (events.take n) (started uipConn) = some t ∧ Kept t) ↔
        RunKeeps configuration (started uipConn) events) ∧
      ∀ expired p, PollDue p expired → waiting (uipProcess (.periodic expired) p).2 = [] := by
  refine ⟨run_kept_iff configuration events (started uipConn) ⟨rfl, [], rfl⟩, fun expired p due => ?_⟩
  rw [waiting, if_pos (due_poll expired p due).1]

instance (conn : Connection) (length : Nat) : Decidable (CanPass conn length) := inferInstanceAs (Decidable (_ ∨ _))

instance : DecidablePred InOrder := fun s => inferInstanceAs (Decidable (s.normal = s.passed ++ waiting s.port))

theorem kept_iff (s : System) :
    InOrder s ∧ (s.port.localMyWebData ≠ [] → CanPass s.port.uipConn s.port.localMyWebData.length) ↔ Kept s :=
  ⟨fun kept => ⟨kept.1, (passable_iff s.port).mpr kept.2⟩, fun kept => ⟨kept.order, (passable_iff s.port).mp kept.passable⟩⟩

instance : DecidablePred Kept := fun s => decidable_of_iff _ (kept_iff s)

def keyless : Configuration :=
  ⟨⟨[], List.not_mem_nil⟩, ⟨[], List.not_mem_nil⟩, fun _ _ => ⟨List.replicate 64 0x30, by decide⟩⟩

def register : Step := .call .registerThing ⟨ascii "\x7b\x7d", by decide⟩ false

def newConnection : Connection := ⟨.synSent, 1, UIP_TCP_MSS, UIP_TCP_MSS⟩

def KeptThroughout (events : List Step) : Prop :=
  ∀ n, ∃ t, run keyless (events.take n) (started newConnection) = some t ∧ Kept t

theorem run_lost (events : List Step)
    (lost : (run keyless events (started newConnection)).map (fun t => decide (Kept t)) = some false) :
    ¬ KeptThroughout events := by
  intro all
  obtain ⟨t, ran, kept⟩ := all events.length
  rw [List.take_length] at ran
  rw [ran] at lost
  exact of_decide_eq_false (Option.some.inj lost) kept

-- A second text before the first poll, a text longer than the MSS, a text for which there is no connection, and one that
-- waits for the SYNACK when the connection times out.
theorem second_text_dropped : ¬ KeptThroughout [register, register] ∧
    ¬ KeptThroughout [register, .process (.synAck 256), .process (.periodic true)] ∧
    ¬ KeptThroughout [.process .reset, register] ∧ ¬ KeptThroughout [register, .process .timedOut] := by
  refine ⟨?_, ?_, ?_, ?_⟩
  · exact run_lost _ (by decide +kernel)
  · exact run_lost _ (by decide +kernel)
  · exact run_lost _ (by decide +kernel)
  · exact run_lost _ (by decide +kernel)

end Aliot.LinkIt
