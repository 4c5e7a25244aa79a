import HeyMacMbed.Bits
import HeyMacMbed.Octets
import HeyMacMbed.Frame
import HeyMacMbed.FrameBuild
import HeyMacMbed.FrameRoundTrip
import HeyMacMbed.Cmd
import HeyMacMbed.FramePool
import HeyMacMbed.Fields
import HeyMacMbed.Radio
import HeyMacMbed.RadioSpec
import HeyMacMbed.RadioCalls
import HeyMacMbed.RadioShadow
import HeyMacMbed.RadioErrata
import HeyMacMbed.Threads
import HeyMacMbed.Ident
import HeyMacMbed.Layer
import HeyMacMbed.LayerLoop
import HeyMacMbed.LayerWakeup
import HeyMacMbed.LayerQueue
import HeyMacMbed.LayerOwnership
import HeyMacMbed.LayerRadio
import HeyMacMbed.LayerReception
import HeyMacMbed.FrameParse
import HeyMacMbed.FrameRoom
import HeyMacMbed.FrameWidths
import HeyMacMbed.FrameCover
import HeyMacMbed.FrameRelay
import HeyMacMbed.RadioFreq
import HeyMacMbed.RadioTwoRegs
import HeyMacMbed.RadioPins
import HeyMacMbed.LayerPins
import HeyMacMbed.IdentHex
import HeyMacMbed.IdentCred
import HeyMacMbed.IdentBtn
import HeyMacMbed.RadioSettle
import HeyMacMbed.RadioIsr
import HeyMacMbed.Histories
import HeyMacMbed.LayerTrace
import HeyMacMbed.LayerEntry
import HeyMacMbed.LayerSetting
import HeyMacMbed.Atomicity
import HeyMacMbed.RadioOps
import HeyMacMbed.LayerFine
import HeyMacMbed.RadioPreempt
import HeyMacMbed.LayerProgress
import HeyMacMbed.LayerModem
import HeyMacMbed.LayerLink
import HeyMacMbed.CmdReceived
import HeyMacMbed.LayerButton
import HeyMacMbed.LayerBlind
import HeyMacMbed.FrameWrites
import HeyMacMbed.FrameEdit
import HeyMacMbed.LayerNextWait
