import OpenTurns.Base
import OpenTurns.InverseBoxCox.Evaluation
import OpenTurns.InverseBoxCox.Operator
import OpenTurns.InverseBoxCox.PointCall
import OpenTurns.InverseBoxCox.SampleCall
import OpenTurns.InverseBoxCox.Lifecycle
import OpenTurns.InverseBoxCox.Accuracy
import OpenTurns.InverseBoxCox.Monotone
import OpenTurns.InverseBoxCox.History
import OpenTurns.InverseBoxCox.Parallel
import OpenTurns.InverseBoxCox.Run
import OpenTurns.InverseBoxCox.RoundTrip
