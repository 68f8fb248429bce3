import S6Soc.LlQspi

/-! The writable flash controller `wbqspiflashp`, as built for a flash of 16 MB. -/
namespace S6Soc.WbQspiFlash

/-- The `WBQSPI_` states. -/
inductive Place
  | reset | resetQuadmode | idle | rdidle | wbdecode
  | rdDummy | qrdAddress | qrdDummy | readCmd | readData | waitTilRdidle
  | readIdCmd | readId | readStatus | readConfig | waitTilIdle
  | waitWipClear | checkWipClear | checkWipDone
  | wen | pp | qpp | wrData | wrBusCycle | writeStatus | writeConfig
  | eraseWen | eraseCmd | eraseBlock | clearStatus | idleCheckWip
  deriving DecidableEq

structure State where
  spi : LlQspi.State
  state : Place
  oWbAck : Bool
  oWbStall : Bool
  oWbData : BitVec 32
  oInterrupt : Bool
  spiWr : Bool
  spiHold : Bool
  spiSpd : Bool
  spiDir : Bool
  spiIn : BitVec 32
  spiLen : BitVec 2
  writeInProgress : Bool
  writeProtect : Bool
  erasedSector : BitVec 8
  dirtySector : Bool
  lastStatus : BitVec 8
  resetCounter : BitVec 10
  quadModeEnabled : Bool
  spifCmd : Bool
  spifOverride : Bool
  spifAddr : BitVec 22
  spifData : BitVec 32
  spifCtrl : Bool
  spifReq : Bool
  altCmd : Bool
  altCtrl : Bool

structure Input where
  iWbCyc : Bool
  iWbDataStb : Bool
  iWbCtrlStb : Bool
  iWbWe : Bool
  iWbAddr : BitVec 22
  iWbData : BitVec 32
  iQspiDat : BitVec 4

/-- The registers that have an `initial` statement hold it; the others are free. -/
structure PowerUp (s : State) : Prop where
  spi : LlQspi.PowerUp s.spi
  state : s.state = .reset
  writeInProgress : s.writeInProgress = false
  erasedSector : s.erasedSector = 0
  dirtySector : s.dirtySector = true
  writeProtect : s.writeProtect = true
  oWbAck : s.oWbAck = false
  oWbStall : s.oWbStall = true
  spiWr : s.spiWr = false
  spiLen : s.spiLen = 0
  quadModeEnabled : s.quadModeEnabled = false
  oInterrupt : s.oInterrupt = false
  spifOverride : s.spifOverride = true
  spifCtrl : s.spifCtrl = false

def State.oQspiCsN (s : State) : Bool := if s.spifOverride then s.altCmd else s.spi.oCsN

/-- A word for the driver: its first byte and the rest. -/
def word (byte : BitVec 8) (rest : BitVec 24) : BitVec 32 := byte ++ rest

def byteAddr (addr : BitVec 22) : BitVec 24 := addr ++ 0#2

/-- The local register, with the status bit `wip`. -/
def State.local (s : State) (wip : Bool) : BitVec 32 :=
  BitVec.ofBool wip ++ BitVec.ofBool s.dirtySector ++ BitVec.ofBool s.spi.oBusy ++
    BitVec.ofBool (!s.writeProtect) ++ BitVec.ofBool s.quadModeEnabled ++ 0#5 ++
    s.erasedSector ++ 0#14

def State.send (s : State) (len : BitVec 2) (w : BitVec 32) : State :=
  { s with spiWr := true, spiLen := len, spiIn := w }

def State.spifSector (s : State) : BitVec 8 := s.spifAddr.extractLsb' 14 8

/-- Nothing is on its way to the chip, and it is not selected. -/
def State.stopped (s : State) : Bool := !s.spi.oBusy && s.oQspiCsN && !s.spiWr

/-- The bus asks for the word after the last one. -/
def State.follows (s : State) (i : Input) : Bool := i.iWbAddr.toNat == s.spifAddr.toNat + 1

def onReset (s : State) : State :=
  { s with
    oWbAck := false
    oWbStall := true
    spiWr := false
    spiHold := false
    spiSpd := false
    spiDir := false
    lastStatus := 0
    state := .resetQuadmode
    spifReq := false
    resetCounter := 0x3fc }

def onResetQuadmode (s : State) : State :=
  let s' := { s with oWbAck := false, oWbStall := true }
  if s.resetCounter = 0 then
    { s'.send 1 (word 0x35 0) with state := .readConfig }
  else { s' with resetCounter := s.resetCounter - 1 }

/-- What is noted down of the bus in the two idle states. -/
def State.listen (s : State) (i : Input) : State :=
  { s with
    oWbStall := false
    oWbAck := false
    spifCmd := i.iWbWe
    spifAddr := i.iWbAddr
    spifData := i.iWbData
    spifCtrl := i.iWbCtrlStb && !i.iWbDataStb
    spifReq := i.iWbCtrlStb || i.iWbDataStb
    spiWr := false
    spiHold := false
    spiDir := false }

/-- A data read starts, in quad mode or without. -/
def State.startRead (s : State) (addr : BitVec 22) : State :=
  if s.quadModeEnabled then { s.send 0 (word 0xeb (byteAddr addr)) with state := .qrdAddress }
  else { s.send 3 (word 0x0b (byteAddr addr)) with state := .rdDummy }

/-- A write of the erase command register: the last assignment to `o_wb_stall` stands by
itself, after the `else`. -/
def idleErase (s s' : State) (i : Input) : State :=
  let s'' := { s' with writeProtect := !i.iWbData.getLsbD 28, oWbAck := true, oWbStall := false }
  if i.iWbData.getLsbD 31 && !s.writeInProgress then
    if !s.writeProtect then { s''.send 0 (word 0x06 0) with state := .eraseCmd } else s''
  else if i.iWbData.getLsbD 31 then { s'' with state := .waitWipClear }
  else s''

def onIdle (s : State) (i : Input) : State :=
  let s' := { s.listen i with oInterrupt := false, spiSpd := false }
  if i.iWbDataStb then
    if i.iWbWe then
      if !s.writeProtect && !s.writeInProgress then
        { s'.send 0 (word 0x06 0) with state := .wen, oWbStall := true }
      else if s.writeProtect then { s' with oWbAck := true }
      else { s' with state := .waitWipClear, oWbStall := true }
    else if !s.writeInProgress then { s'.startRead i.iWbAddr with oWbStall := true }
    else { s' with state := .waitWipClear, oWbStall := true }
  else if i.iWbCtrlStb && i.iWbWe then
    if i.iWbAddr.extractLsb' 0 2 = 0 then idleErase s s' i
    else if i.iWbAddr.extractLsb' 0 2 = 1 then
      { s'.send 0 (word 0x06 0) with oWbAck := true, oWbStall := true, state := .writeConfig }
    else if i.iWbAddr.extractLsb' 0 2 = 2 then
      { s'.send 0 (word 0x06 0) with oWbAck := true, oWbStall := true, state := .writeStatus }
    else { s' with oWbAck := true }
  else if i.iWbCtrlStb then
    if i.iWbAddr.extractLsb' 0 2 = 0 then
      if s.writeInProgress then
        { s'.send 1 (word 0x05 0) with state := .readStatus, oWbStall := true }
      else { s' with oWbAck := true, oWbData := s.local s.writeInProgress }
    else if i.iWbAddr.extractLsb' 0 2 = 1 then
      { s'.send 1 (word 0x35 0) with state := .readConfig, oWbStall := true }
    else if i.iWbAddr.extractLsb' 0 2 = 2 then
      { s'.send 1 (word 0x05 0) with state := .readStatus, oWbStall := true }
    else { s'.send 0 (word 0x9f 0) with state := .readIdCmd, oWbStall := true }
  else if !i.iWbCyc && s.writeInProgress then
    { s'.send 1 (word 0x05 0) with state := .idleCheckWip, oWbStall := true }
  else s'

/-- Idle, with the chip kept in quad read mode. -/
def onRdidle (s : State) (i : Input) : State :=
  let s' := { s.listen i with spiSpd := true }
  if i.iWbDataStb && !i.iWbWe then
    { s'.send 2 (byteAddr i.iWbAddr ++ 0xa0#8) with oWbStall := true, state := .qrdDummy }
  else if i.iWbCtrlStb && !i.iWbWe && i.iWbAddr.extractLsb' 0 2 == 0 then
    { s' with oWbAck := true, oWbData := s.local s.writeInProgress }
  else if i.iWbCtrlStb || i.iWbDataStb then
    { s'.send 3 0 with oWbStall := true, state := .wbdecode }
  else s'

/-- The request noted down in `rdidle`, once the chip has left its mode. -/
def decode (s s' : State) : State :=
  if !s.spifCtrl then
    if s.spifCmd then
      if !s.writeProtect && !s.writeInProgress then
        { s'.send 0 (word 0x06 0) with state := .wen }
      else if s.writeProtect then
        { s' with oWbAck := s.spifReq, oWbStall := false, state := .idle }
      else { s' with state := .waitWipClear }
    else { s' with state := .idle }
  else if s.spifCmd then
    if s.spifAddr.extractLsb' 0 2 = 0 then
      let s'' := { s' with oWbAck := s.spifReq, writeProtect := !s.spifData.getLsbD 28 }
      if s.spifData.getLsbD 31 then { s''.send 0 (word 0x06 0) with state := .eraseCmd }
      else { s'' with oWbStall := false, state := .idle }
    else if s.spifAddr.extractLsb' 0 2 = 1 then
      { s'.send 0 (word 0x06 0) with oWbAck := s.spifReq, state := .writeConfig }
    else if s.spifAddr.extractLsb' 0 2 = 2 then
      { s'.send 0 (word 0x06 0) with oWbAck := s.spifReq, state := .writeStatus }
    else { s' with oWbAck := s.spifReq, oWbStall := false, state := .idle }
  else if s.spifAddr.extractLsb' 0 2 = 0 then
    { s' with oWbAck := s.spifReq, oWbStall := false, state := .idle }
  else if s.spifAddr.extractLsb' 0 2 = 1 then
    { s'.send 1 (word 0x35 0) with state := .readConfig }
  else if s.spifAddr.extractLsb' 0 2 = 2 then
    { s'.send 1 (word 0x05 0) with state := .readStatus }
  else { s'.send 0 (word 0x9f 0) with state := .readIdCmd }

/-- `spif_req` does not outlive the bus cycle. -/
def State.keepReq (s : State) (i : Input) : State := { s with spifReq := s.spifReq && i.iWbCyc }

def onWbdecode (s : State) (i : Input) : State :=
  let s' := { s.keepReq i with
    oWbStall := true
    oWbAck := false
    spiWr := false
    spiHold := false
    spiSpd := false
    spiDir := false }
  if s.stopped then decode s s' else s'

def onRdDummy (s : State) (i : Input) : State :=
  { (s.keepReq i).send 0 (word 0 0) with
    oWbAck := false
    oWbStall := true
    spiSpd := false
    spiHold := false
    state := if !s.spi.oBusy && !s.oQspiCsN then .readCmd else .rdDummy }

def onQrdAddress (s : State) (i : Input) : State :=
  { (s.keepReq i).send 2 (byteAddr s.spifAddr ++ 0xa0#8) with
    oWbAck := false
    oWbStall := true
    spiSpd := true
    spiDir := false
    spiHold := false
    state := if !s.spi.oBusy && s.spiSpd then .qrdDummy else .qrdAddress }

def onQrdDummy (s : State) (i : Input) : State :=
  { (s.keepReq i).send 2 (word 0xa0 0) with
    oWbAck := false
    oWbStall := true
    spiSpd := true
    spiDir := false
    spiHold := false
    state := if !s.spi.oBusy && s.spiIn.extractLsb' 28 4 == 0xa then .readCmd else .qrdDummy }

def onReadCmd (s : State) (i : Input) : State :=
  { (s.keepReq i).send 3 (word 0xff 0) with
    oWbAck := false
    oWbStall := true
    spiDir := true
    spiHold := false
    state := if s.spi.oValid && s.spiLen == 3 then .readData else .readCmd }

def onReadData (s : State) (i : Input) : State :=
  let s' := { s.keepReq i with
    spiWr := i.iWbDataStb && !i.iWbWe && s.follows i
    spiIn := 0
    spiLen := 3
    spiDir := true
    spiHold := true }
  let afterwards : Place := if s.spiSpd then .waitTilRdidle else .waitTilIdle
  if s.spi.oValid && !s.spiIn.getLsbD 31 then
    { s' with
      oWbAck := s.spifReq
      oWbStall := !s.spiWr
      oWbData := s.spi.oWord
      state := if s.spiWr then .readData else afterwards
      spifReq := s.spiWr
      spiHold := !s.spiWr
      spifAddr := if s.spiWr then i.iWbAddr else s.spifAddr }
  else if !i.iWbCyc then
    { s' with state := afterwards, spiHold := false, oWbAck := false, oWbStall := true }
  else { s' with oWbAck := false, oWbStall := true }

/-- Wait for a full stop and go on to `place`, ready for the bus. -/
def waitTil (place : Place) (s : State) : State :=
  let s' := { s with
    spiWr := false
    spiHold := false
    oWbStall := true
    oWbAck := false
    spifReq := false }
  if s.stopped then { s' with state := place, oWbStall := false } else s'

def onReadIdCmd (s : State) (i : Input) : State :=
  { (s.keepReq i).send 3 0 with
    oWbAck := false
    oWbStall := true
    spiSpd := false
    spiDir := true
    spiHold := false
    state := if !s.spi.oBusy && !s.oQspiCsN && s.spiLen == 3 then .readId else .readIdCmd }

def onReadId (s : State) (i : Input) : State :=
  let s' := { s.keepReq i with
    oWbAck := false
    oWbStall := true
    spiWr := false
    spiHold := false
    spiLen := 0 }
  if s.spi.oValid && s.spiLen == 0 then
    { s' with oWbData := s.spi.oWord, oWbAck := s.spifReq, spifReq := false }
  else if !s.spi.oBusy && s.oQspiCsN then { s' with state := .idle, oWbStall := false }
  else s'

def onReadStatus (s : State) (i : Input) : State :=
  let s' := { s.keepReq i with
    spiWr := false
    oWbAck := false
    spiHold := false
    state := if !s.spi.oBusy && !s.spiWr then .idle else .readStatus }
  if s.spi.oValid then
    { s' with
      oWbAck := s.spifReq
      oWbStall := true
      spifReq := false
      lastStatus := s.spi.oWord.extractLsb' 0 8
      writeInProgress := s.spi.oWord.getLsbD 0
      oWbData :=
        if s.spifAddr.extractLsb' 0 2 = 0 then s.local (s.spi.oWord.getLsbD 0)
        else (s.spi.oWord.extractLsb' 0 8).setWidth 32 }
  else s'

def onReadConfig (s : State) (i : Input) : State :=
  let s' := { s.keepReq i with
    spiWr := false
    oWbAck := false
    oWbStall := true
    spiHold := false
    oWbData := if s.spi.oValid then (s.spi.oWord.extractLsb' 0 8).setWidth 32 else s.oWbData
    quadModeEnabled := if s.spi.oValid then s.spi.oWord.getLsbD 1 else s.quadModeEnabled }
  if !s.spi.oBusy && !s.spiWr then
    { s' with state := .idle, oWbAck := s.spifReq, oWbStall := false, spifReq := false }
  else s'

def onWaitWipClear (s : State) (i : Input) : State :=
  let s' := { s.keepReq i with oWbStall := true, oWbAck := false, spiWr := false }
  if !s.spi.oBusy then
    { s'.send 1 (word 0x05 0) with
      spiHold := true
      state := .checkWipClear
      spiSpd := false
      spiDir := false }
  else s'

def onCheckWipClear (s : State) (i : Input) : State :=
  let s' := { (s.keepReq i).send 0 0 with
    oWbStall := true
    oWbAck := false
    spiHold := true
    spiSpd := false
    spiDir := false }
  if s.spi.oValid && !s.spi.oWord.getLsbD 0 then
    { s' with
      state := .checkWipDone
      spiWr := false
      spiHold := false
      writeInProgress := false
      lastStatus := s.spi.oWord.extractLsb' 0 8 }
  else s'

def onCheckWipDone (s : State) (i : Input) : State :=
  let s' := { s.keepReq i with
    oWbStall := true
    oWbAck := false
    spiWr := false
    spiLen := 0
    spiHold := false
    spiSpd := false
    spiDir := false }
  if s.oQspiCsN && !s.spi.oBusy then
    if !s.spifCmd && !s.spifCtrl then s'.startRead s.spifAddr
    else if s.spifCmd && !s.spifCtrl then { s'.send 0 (word 0x06 0) with state := .wen }
    else if !s.spifCmd && s.spifAddr.extractLsb' 0 2 == 2 then
      { s'.send 1 (word 0x05 0) with state := .readStatus }
    else if !s.spifCmd && s.spifAddr.extractLsb' 0 2 == 3 then
      { s'.send 0 (word 0x9f 0) with state := .readIdCmd }
    else { s' with oWbAck := s.spifReq, state := .waitTilIdle }
  else s'

def onWen (s : State) (i : Input) : State :=
  { s.keepReq i with
    spiWr := false
    oWbAck := false
    oWbStall := true
    state := if s.stopped then if s.quadModeEnabled then .qpp else .pp else .wen }

/-- The two page program states differ in the command, and in the speed of what follows. -/
def program (byte : BitVec 8) (quad : Bool) (s : State) (i : Input) : State :=
  { (s.keepReq i).send 3 (word byte (byteAddr s.spifAddr)) with
    spiHold := true
    spiSpd := quad && s.spi.oBusy
    spiDir := false
    state := if s.spi.oBusy then .wrData else s.state
    dirtySector := s.dirtySector || s.spifSector == s.erasedSector }

def onPp : State → Input → State := program 0x02 false

def onQpp : State → Input → State := program 0x32 true

def onWrData (s : State) (i : Input) : State :=
  { (s.keepReq i).send 3 s.spifData with
    oWbStall := true
    spiHold := true
    oWbAck := !s.spi.oBusy && s.spifReq
    state := if !s.spi.oBusy then .wrBusCycle else .wrData }

def onWrBusCycle (s : State) (i : Input) : State :=
  let s' := { s.keepReq i with
    oWbAck := false
    oWbStall := true
    spiWr := false
    spiHold := true
    writeInProgress := true }
  if !i.iWbCyc then { s' with state := .waitTilIdle, spiHold := false }
  else if s.spiWr then s'
  else if i.iWbDataStb && i.iWbWe && s.follows i &&
      i.iWbAddr.extractLsb' 6 16 == s.spifAddr.extractLsb' 6 16 then
    { s' with
      spifCmd := true
      spifData := i.iWbData
      spifAddr := i.iWbAddr
      spifCtrl := false
      spifReq := true
      state := .wrData
      oWbStall := false }
  else if (i.iWbDataStb || i.iWbCtrlStb) && !s.oWbAck then
    { s' with spiHold := false, state := .waitTilIdle }
  else s'

def onWriteConfig (s : State) (i : Input) : State :=
  let s' := { s.keepReq i with
    oWbAck := false
    oWbStall := true
    spiLen := 2
    spiIn := word 0x01 (s.lastStatus ++ s.spifData.extractLsb' 0 8 ++ 0#8)
    spiWr := false
    spiHold := false }
  if !s.spi.oBusy && !s.spiWr then
    { s' with
      spiWr := true
      state := .waitTilIdle
      writeInProgress := true
      quadModeEnabled := s.spifData.getLsbD 1 }
  else s'

def onWriteStatus (s : State) (i : Input) : State :=
  let s' := { s.keepReq i with
    oWbAck := false
    oWbStall := true
    spiLen := 1
    spiIn := word 0x01 (s.spifData.extractLsb' 0 8 ++ 0#16)
    spiWr := false
    spiHold := false }
  if !s.spi.oBusy && !s.spiWr then
    { s' with
      spiWr := true
      lastStatus := s.spifData.extractLsb' 0 8
      writeInProgress := true
      state :=
        if (s.lastStatus.getLsbD 6 || s.lastStatus.getLsbD 5) &&
            (!s.spifData.getLsbD 6 && !s.spifData.getLsbD 5) then .clearStatus
        else .waitTilIdle }
  else s'

def onEraseCmd (s : State) (i : Input) : State :=
  { s.keepReq i with
    spiWr := s.stopped
    oWbAck := false
    oWbStall := true
    spiHold := false
    spiSpd := false
    spiDir := false
    spiIn := word 0xd8 (0#2 ++ s.spifData.extractLsb' 14 6 ++ 0#14 ++ 0#2)
    spiLen := 3
    writeInProgress := true
    erasedSector := s.spifData.extractLsb' 14 8
    dirtySector := false
    state := if s.stopped then .eraseBlock else .eraseCmd }

def onEraseBlock (s : State) (i : Input) : State :=
  { s.keepReq i with
    spiWr := false
    spiHold := false
    oWbStall := true
    oWbAck := false
    state := if !s.spi.oBusy && !s.spiWr then .idle else .eraseBlock }

def onClearStatus (s : State) (i : Input) : State :=
  { (s.keepReq i).send 0 (word 0x30 0) with
    spiHold := false
    spiSpd := false
    spiDir := false
    lastStatus := s.lastStatus &&& 0x9f
    state := if s.spiWr && !s.spi.oBusy then .waitTilIdle else .clearStatus }

def onIdleCheckWip (s : State) (i : Input) : State :=
  let s' := { s.keepReq i with
    oWbStall := true
    oWbAck := false
    spiWr := (!i.iWbCyc || (!i.iWbDataStb && !i.iWbCtrlStb)) && s.writeInProgress
    spiLen := 0
    spiSpd := false
    spiDir := true
    writeInProgress := if s.spi.oValid then s.spi.oWord.getLsbD 0 else s.writeInProgress
    oInterrupt :=
      if s.spi.oValid then (!s.spi.oWord.getLsbD 0 && s.writeInProgress) || s.oInterrupt
      else false }
  if s.stopped then { s' with oWbStall := false, oWbAck := false, state := .idle } else s'

/-- `WBQSPI_ERASE_WEN` has no branch of its own. -/
def act (s : State) (i : Input) : State :=
  match s.state with
  | .reset => onReset s
  | .resetQuadmode => onResetQuadmode s
  | .idle => onIdle s i
  | .rdidle => onRdidle s i
  | .wbdecode => onWbdecode s i
  | .rdDummy => onRdDummy s i
  | .qrdAddress => onQrdAddress s i
  | .qrdDummy => onQrdDummy s i
  | .readCmd => onReadCmd s i
  | .readData => onReadData s i
  | .waitTilRdidle => waitTil .rdidle s
  | .readIdCmd => onReadIdCmd s i
  | .readId => onReadId s i
  | .readStatus => onReadStatus s i
  | .readConfig => onReadConfig s i
  | .waitWipClear => onWaitWipClear s i
  | .checkWipClear => onCheckWipClear s i
  | .checkWipDone => onCheckWipDone s i
  | .wen => onWen s i
  | .pp => onPp s i
  | .qpp => onQpp s i
  | .wrData => onWrData s i
  | .wrBusCycle => onWrBusCycle s i
  | .writeConfig => onWriteConfig s i
  | .writeStatus => onWriteStatus s i
  | .eraseCmd => onEraseCmd s i
  | .eraseBlock => onEraseBlock s i
  | .clearStatus => onClearStatus s i
  | .idleCheckWip => onIdleCheckWip s i
  | .waitTilIdle | .eraseWen => waitTil .idle s

def State.driver (s : State) (i : Input) : LlQspi.Input :=
  ⟨s.spiWr, s.spiHold, s.spiIn, s.spiLen, s.spiSpd, s.spiDir, i.iQspiDat⟩

/-- The chip select and clock of the start-up sequence. -/
def State.toggled (s : State) (bit : Nat) : Bool :=
  if s.resetCounter.extractLsb' 8 2 = 2 then s.resetCounter.getLsbD bit else true

/-- `spif_override`: only the start-up sequence drives the pins itself. -/
def State.override (s : State) : Bool :=
  match s.state with
  | .reset => true
  | .resetQuadmode => s.resetCounter != 0
  | _ => false

def State.next (s : State) (i : Input) : State :=
  { act s i with
    spifOverride := s.override
    altCmd := s.toggled 3
    altCtrl := s.toggled 0
    spi := s.spi.next (s.driver i) }

end S6Soc.WbQspiFlash
