import VantiqMicro.BufRefinement
import VantiqMicro.PercentCoding
import VantiqMicro.Results
import VantiqMicro.Uploads
import VantiqMicro.QueryString
import VantiqMicro.Independence
import VantiqMicro.Authentication
import VantiqMicro.Counts
import VantiqMicro.StaleHandles
import VantiqMicro.Targets
import VantiqMicro.Transmission
import VantiqMicro.Dialogue
import VantiqMicro.Stall
import VantiqMicro.LogLevels
import VantiqMicro.HandSized
import VantiqMicro.Vipo
import VantiqMicro.TrailingSlash
import VantiqMicro.CJsonMinify
import VantiqMicro.OwnershipRuns
import VantiqMicro.Agent
import VantiqMicro.Traces
import VantiqMicro.Faults
