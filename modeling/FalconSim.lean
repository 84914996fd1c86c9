import FalconSim.Spdu
import FalconSim.Keys
import FalconSim.Sign
import FalconSim.Transmit
import FalconSim.Receive
import FalconSim.Verify
import FalconSim.Arrivals
import FalconSim.Reassembly
import FalconSim.Counting
import FalconSim.EndToEnd
import FalconSim.Isolation
import FalconSim.Invariant
import FalconSim.Verdicts
import FalconSim.ReceiveLoop
import FalconSim.Construct
import FalconSim.Ports
import FalconSim.Arguments
import FalconSim.Options
import FalconSim.Trace
import FalconSim.Transmitter
import FalconSim.Loss
